import Nerve.Mcp.Model
import Mathlib.Tactic.Common

/-!
# The two allowlists

A tool of a server may be called and told of only if both allowlists that are there have it:
the global one and the server's own. `registerAll` makes one list of the two, which the
client reads with the meaning that a list that is empty restricts nothing. Two lists without a
common tool make such a list, and then the server's tools are all open
(`disjoint_lists_open`). With this exception the lists are kept, in every call and in every
listing, whatever the servers advertise: `confined_iff`.
-/

namespace Nerve.Mcp

/-- Both allowlists, as far as they are there, have the tool. -/
def Permitted (allowTools : List String) (spec : McpServerSpec) (tool : String) : Prop :=
  (allowTools ≠ [] → tool ∈ allowTools) ∧ (spec.allowedTools ≠ [] → tool ∈ spec.allowedTools)

/-- One of the lists is not there, or they have a tool in common. -/
def Overlaps (allowTools : List String) (spec : McpServerSpec) : Prop :=
  allowTools = [] ∨ spec.allowedTools = [] ∨ ∃ tool ∈ spec.allowedTools, tool ∈ allowTools

/-- The configuration of a server; of several of one name the last counts. -/
def configured (specs : List McpServerSpec) (name : String) : Option McpServerSpec :=
  specs.reverse.find? fun spec => spec.name == name

/-- Only permitted tools are called and told of. -/
structure Confined (specs : List McpServerSpec) (allowTools : List String) (r : McpRegistry) : Prop where
  calls : ∀ name client, r.get name = some client → ∃ spec, configured specs name = some spec ∧
    ∀ call answer durationMs request, (client.callTool call answer durationMs).1 = some request →
      Permitted allowTools spec request.name
  listed : ∀ role, ∀ tool ∈ r.allTools role, ∃ spec, configured specs tool.server = some spec ∧
    Permitted allowTools spec tool.name

/-! ### One list of the two -/

section Scope

variable {allowTools : List String} {spec : McpServerSpec} {tool : String}

/-- What the client takes for permitted. -/
def Open (spec : McpServerSpec) (tool : String) : Prop := spec.allowedTools = [] ∨ tool ∈ spec.allowedTools

/-- The one list says what the two say, unless they have nothing in common. -/
theorem permitted_of_open (hoverlaps : Overlaps allowTools spec)
    (h : Open (scopeMcpSpecToAllowlist spec allowTools) tool) : Permitted allowTools spec tool := by
  unfold scopeMcpSpecToAllowlist at h
  split_ifs at h with hallow hallowed
  · rw [List.isEmpty_iff] at hallow
    exact ⟨fun hne => absurd hallow hne, h.resolve_left⟩
  · rw [List.isEmpty_iff] at hallow hallowed
    exact ⟨fun hne => h.resolve_left hne, fun hne => absurd hallowed hne⟩
  · rw [List.isEmpty_iff] at hallow hallowed
    have hcommon : ∃ tool ∈ spec.allowedTools, tool ∈ allowTools :=
      (hoverlaps.resolve_left hallow).resolve_left hallowed
    rcases h with hnil | hmem
    · obtain ⟨common, hown, hglobal⟩ := hcommon
      have hin : common ∈ spec.allowedTools.filter fun tool => allowTools.contains tool := by
        simpa [hown] using hglobal
      rw [show spec.allowedTools.filter (fun tool => allowTools.contains tool) = [] from hnil] at hin
      cases hin
    · have hboth : tool ∈ spec.allowedTools ∧ tool ∈ allowTools := by simpa using hmem
      exact ⟨fun _ => hboth.2, fun _ => hboth.1⟩

/-- Two lists with nothing in common make an empty one. -/
theorem scope_of_disjoint (h : ¬ Overlaps allowTools spec) :
    (scopeMcpSpecToAllowlist spec allowTools).allowedTools = [] := by
  simp only [Overlaps, not_or, not_exists, not_and] at h
  obtain ⟨hallow, hallowed, hdisjoint⟩ := h
  rw [scopeMcpSpecToAllowlist, if_neg (by simpa using hallow), if_neg (by simpa using hallowed), List.filter_eq_nil_iff]
  intro tool htool
  simpa using hdisjoint tool htool

theorem not_permitted_of_disjoint (h : ¬ Overlaps allowTools spec) : ¬ Permitted allowTools spec tool := by
  simp only [Overlaps, not_or, not_exists, not_and] at h
  obtain ⟨hallow, hallowed, hdisjoint⟩ := h
  exact fun hpermitted => hdisjoint tool (hpermitted.2 hallowed) (hpermitted.1 hallow)

end Scope

/-! ### Where the list is read -/

/-- A call that is sent is one the client's list permits. -/
theorem open_of_callTool {client : McpClient} {call : McpToolCall} {answer : Except McpError Json} {durationMs : Nat}
    {request : ToolRequest} (h : (client.callTool call answer durationMs).1 = some request) :
    Open client.spec request.name := by
  unfold McpClient.callTool at h
  rcases hcheck : client.checkCall call with e | _ <;> simp only [hcheck] at h
  · cases h
  obtain rfl := Option.some.inj h
  by_contra hclosed
  simp only [Open, not_or] at hclosed
  have hrefused : (!client.spec.allowedTools.isEmpty && !client.spec.allowedTools.contains call.tool) = true := by
    simpa using hclosed
  unfold McpClient.checkCall at hcheck
  rcases hprocess : client.process with _ | _
  · rw [hprocess] at hcheck
    cases hcheck
  · rw [hprocess, hrefused] at hcheck
    cases hcheck

/-- So is a tool that is listed. -/
theorem open_of_visibleTools {client : McpClient} {tool : McpToolInfo} (h : tool ∈ McpRegistry.visibleTools client) :
    Open client.spec tool.name ∧ tool ∈ client.toolsCache := by
  unfold McpRegistry.visibleTools McpClient.listTools at h
  split_ifs at h
  · obtain ⟨hmem, hopen⟩ := List.mem_filter.mp h
    refine ⟨?_, hmem⟩
    by_contra hclosed
    simp only [Open, not_or] at hclosed
    simp [hclosed] at hopen
  · cases h

/-! ### What is registered -/

/-- The client of a server, started with the tools the server advertised. -/
structure Serves (guards : McpRegistry.Guards) (answers : Nat → Except McpError Json) (spec : McpServerSpec)
    (client : McpClient) : Prop where
  spec_eq : client.spec = scopeMcpSpecToAllowlist spec guards.allowTools
  started : client.process = true
  tools : ∃ i value, answers i = .ok value ∧ parseToolsList spec.name value = .ok client.toolsCache

/-- A registry with these servers: the last of each name. -/
structure Registers (guards : McpRegistry.Guards) (answers : Nat → Except McpError Json) (specs : List McpServerSpec)
    (r : McpRegistry) : Prop where
  entry : ∀ name client, (name, client) ∈ r.clients → ∃ spec, configured specs name = some spec ∧
    Serves guards answers spec client
  present : ∀ name spec, configured specs name = some spec → ∃ client, (name, client) ∈ r.clients
  commands : ∀ spec ∈ specs, spec.command ≠ []

section Registers

variable {guards : McpRegistry.Guards} {answers : Nat → Except McpError Json} {specs : List McpServerSpec}
  {r r' : McpRegistry}

theorem configured_concat (spec : McpServerSpec) (name : String) :
    configured (specs ++ [spec]) name = if spec.name = name then some spec else configured specs name := by
  rw [configured, List.reverse_append, List.reverse_singleton, List.singleton_append, List.find?_cons]
  by_cases h : spec.name = name
  · simp [h]
  · rw [if_neg h, beq_eq_false_iff_ne.mpr h]
    rfl

/-- A client that is started serves its server. -/
theorem serves_of_start {spec : McpServerSpec} {patterns : List String} {client : McpClient} {i : Nat}
    (h : ((McpClient.new (scopeMcpSpecToAllowlist spec guards.allowTools) patterns guards.readOnlyPosture).withArgumentPolicy
      guards.argumentPolicy guards.projectRoot).start (answers i) = .ok client) :
    Serves guards answers spec client ∧ spec.command ≠ [] := by
  unfold McpClient.start at h
  split_ifs at h with hprocess hcommand
  rcases hanswer : answers i with e | value <;> simp only [hanswer] at h
  · cases h
  rcases hparse : parseToolsList (scopeMcpSpecToAllowlist spec guards.allowTools).name value with e | tools <;>
    simp only [McpClient.withArgumentPolicy, McpClient.new, hparse] at h
  · cases h
  obtain rfl := Except.ok.inj h
  rw [scope_name] at hparse
  refine ⟨⟨rfl, rfl, i, value, hanswer, hparse⟩, fun hnil => hcommand ?_⟩
  simp [McpClient.withArgumentPolicy, McpClient.new, hnil]

/-- The new client replaces that of its name. -/
theorem Registers.insert {spec : McpServerSpec} {client : McpClient} (h : Registers guards answers specs r)
    (hserves : Serves guards answers spec client) (hcommand : spec.command ≠ []) :
    Registers guards answers (specs ++ [spec]) (r.insert spec.name client) := by
  constructor
  · intro name c hmem
    rw [configured_concat]
    rcases List.mem_cons.mp hmem with heq | hmem
    · obtain ⟨rfl, rfl⟩ := Prod.mk.inj heq
      exact ⟨spec, if_pos rfl, hserves⟩
    · obtain ⟨hmem, hne⟩ := List.mem_filter.mp hmem
      have hne : spec.name ≠ name := fun heq => by simp [heq] at hne
      rw [if_neg hne]
      exact h.entry name c hmem
  · intro name s hs
    rw [configured_concat] at hs
    split_ifs at hs with hname
    · exact ⟨client, hname ▸ List.mem_cons_self⟩
    · obtain ⟨c, hc⟩ := h.present name s hs
      have hne : (name != spec.name) = true := bne_iff_ne.mpr (Ne.symm hname)
      exact ⟨c, List.mem_cons_of_mem _ (List.mem_filter.mpr ⟨hc, hne⟩)⟩
  · intro s hs
    rcases List.mem_append.mp hs with hs | hs
    · exact h.commands s hs
    · exact List.mem_singleton.mp hs ▸ hcommand

/-- What `registerAll` makes, server after server. -/
theorem registers_go {patterns : List String} {done : List McpServerSpec} {index : Nat}
    (h : Registers guards answers done r)
    (hgo : McpRegistry.registerAll.go guards answers patterns r index specs = (.ok (), r')) :
    Registers guards answers (done ++ specs) r' := by
  induction specs generalizing r index done with
  | nil =>
    obtain rfl := (Prod.mk.inj hgo).2
    rwa [List.append_nil]
  | cons spec specs ih =>
    rw [McpRegistry.registerAll.go] at hgo
    split at hgo
    · cases (Prod.mk.inj hgo).1
    · obtain ⟨hserves, hcommand⟩ := serves_of_start ‹_›
      rw [scope_name] at hgo
      have hrest := ih (h.insert hserves hcommand) hgo
      rwa [List.append_assoc] at hrest

theorem registers_registerAll (h : McpRegistry.new.registerAll specs guards answers = (.ok (), r)) :
    Registers guards answers specs r := by
  have hnew : Registers guards answers [] McpRegistry.new :=
    ⟨fun _ _ hmem => absurd hmem List.not_mem_nil, fun _ _ hspec => absurd hspec (by simp [configured]),
      fun _ hspec => absurd hspec List.not_mem_nil⟩
  exact registers_go hnew h

/-- If every server starts, there is a registry. -/
theorem exists_registerAll (hcommands : ∀ spec ∈ specs, spec.command ≠ [])
    (hanswers : ∀ i server, ∃ value tools, answers i = .ok value ∧ parseToolsList server value = .ok tools) :
    ∃ r, McpRegistry.new.registerAll specs guards answers = (.ok (), r) := by
  unfold McpRegistry.registerAll
  dsimp only
  generalize McpRegistry.new = r
  generalize (0 : Nat) = index
  induction specs generalizing r index with
  | nil => exact ⟨r, rfl⟩
  | cons spec specs ih =>
    obtain ⟨hcommand, hcommands⟩ := List.forall_mem_cons.mp hcommands
    obtain ⟨value, tools, hanswer, hparse⟩ := hanswers index (scopeMcpSpecToAllowlist spec guards.allowTools).name
    rw [McpRegistry.registerAll.go]
    have hstart : ((McpClient.new (scopeMcpSpecToAllowlist spec guards.allowTools)
        (if guards.writePatterns.isEmpty then defaultWriteToolPatterns else guards.writePatterns)
        guards.readOnlyPosture).withArgumentPolicy guards.argumentPolicy guards.projectRoot).start (answers index) =
        .ok { (McpClient.new (scopeMcpSpecToAllowlist spec guards.allowTools)
          (if guards.writePatterns.isEmpty then defaultWriteToolPatterns else guards.writePatterns)
          guards.readOnlyPosture).withArgumentPolicy guards.argumentPolicy guards.projectRoot with
            process := true, toolsCache := tools } := by
      rw [scope_name] at hparse
      unfold McpClient.start
      simp [McpClient.new, McpClient.withArgumentPolicy, hcommand, hanswer, hparse]
    simp only [hstart]
    exact ih hcommands _ _

end Registers

/-! ### The result -/

theorem server_of_parseTool {server : String} {entry : Json} {tool : McpToolInfo}
    (h : parseTool server entry = .ok tool) : tool.server = server := by
  unfold parseTool at h
  split at h
  · cases h
  · obtain rfl := Except.ok.inj h
    rfl

/-- The tools are those of the server. -/
theorem server_of_parseToolsList {server : String} {value : Json} {tools : List McpToolInfo}
    (h : parseToolsList server value = .ok tools) : ∀ tool ∈ tools, tool.server = server := by
  unfold parseToolsList at h
  split at h
  · cases h
  · rename_i entries _
    clear * - h
    induction entries generalizing tools with
    | nil =>
      obtain rfl := Except.ok.inj h
      exact fun _ hmem => absurd hmem List.not_mem_nil
    | cons entry entries ih =>
      rw [List.mapM_cons] at h
      rcases hentry : parseTool server entry with e | tool <;> rw [hentry] at h
      · cases h
      rcases hrest : entries.mapM (parseTool server) with e | rest <;> rw [hrest] at h
      · cases h
      obtain rfl : tool :: rest = tools := Except.ok.inj h
      exact List.forall_mem_cons.mpr ⟨server_of_parseTool hentry, ih hrest⟩

theorem name_of_configured {specs : List McpServerSpec} {name : String} {spec : McpServerSpec}
    (h : configured specs name = some spec) : spec.name = name := by
  simpa using List.find?_some h

/-- A server that advertises one tool. -/
def oneTool (name : String) : Json :=
  .object [("tools", .array [.object [("name", .string name)]])]

theorem parseToolsList_oneTool (server name : String) :
    parseToolsList server (oneTool name) = .ok [⟨server, name, none, none, none, none⟩] := rfl

/-- **The lists are kept by every registry that `registerAll` makes, whatever the servers advertise,
exactly if every two of them have a tool in common.** (Or one of the servers cannot start, and there is no
registry.) -/
theorem confined_iff (specs : List McpServerSpec) (guards : McpRegistry.Guards) :
    (∀ answers r, McpRegistry.new.registerAll specs guards answers = (.ok (), r) → Confined specs guards.allowTools r) ↔
      (∃ spec ∈ specs, spec.command = []) ∨
        ∀ name spec, configured specs name = some spec → Overlaps guards.allowTools spec := by
  constructor
  · intro h
    by_contra hnot
    simp only [not_or, not_exists, not_and, not_forall] at hnot
    obtain ⟨hcommands, name, spec, hspec, hdisjoint⟩ := hnot
    have hstarts : ∃ r, McpRegistry.new.registerAll specs guards (fun _ => .ok (oneTool "x")) = (.ok (), r) :=
      exists_registerAll hcommands fun _ server => ⟨_, _, rfl, parseToolsList_oneTool server "x"⟩
    obtain ⟨r, hr⟩ := hstarts
    have hregisters := registers_registerAll hr
    obtain ⟨client, hclient⟩ := hregisters.present name spec hspec
    obtain ⟨spec', hspec', hserves⟩ := hregisters.entry name client hclient
    obtain rfl : spec' = spec := Option.some.inj (hspec'.symm.trans hspec)
    obtain ⟨_, value, hvalue, hparse⟩ := hserves.tools
    obtain rfl : oneTool "x" = value := Except.ok.inj hvalue
    have hcache : [⟨spec'.name, "x", none, none, none, none⟩] = client.toolsCache :=
      Except.ok.inj ((parseToolsList_oneTool spec'.name "x").symm.trans hparse)
    -- the list that is left is empty, so the tool is told of
    have hopen : client.spec.allowedTools = [] := hserves.spec_eq ▸ scope_of_disjoint hdisjoint
    have hvisible : (⟨spec'.name, "x", none, none, none, none⟩ : McpToolInfo) ∈ McpRegistry.visibleTools client := by
      simp [McpRegistry.visibleTools, McpClient.listTools, hserves.started, hopen, ← hcache]
    have hlisted : (⟨spec'.name, "x", none, none, none, none⟩ : McpToolInfo) ∈ r.allTools .both := by
      refine List.mem_flatMap.mpr ⟨_, hclient, ?_⟩
      dsimp only
      have hrole : roleMatches client.spec.role .both = true := by cases client.spec.role <;> rfl
      rwa [if_pos hrole]
    obtain ⟨spec'', hspec'', hpermitted⟩ := (h _ r hr).listed .both _ hlisted
    obtain rfl : spec'' = spec' := by
      rw [name_of_configured hspec] at hspec''
      exact Option.some.inj (hspec''.symm.trans hspec)
    exact not_permitted_of_disjoint hdisjoint hpermitted
  · intro hcondition answers r hr
    have hregisters := registers_registerAll hr
    have hoverlaps := hcondition.resolve_left fun ⟨spec, hmem, hnil⟩ => hregisters.commands spec hmem hnil
    constructor
    · intro name client hget
      obtain ⟨_, _, heq, _⟩ := List.lookup_eq_some_iff.mp hget
      obtain ⟨spec, hspec, hserves⟩ := hregisters.entry name client (by simp [heq])
      refine ⟨spec, hspec, fun call answer durationMs request hsent => ?_⟩
      have hopen := open_of_callTool hsent
      rw [hserves.spec_eq] at hopen
      exact permitted_of_open (hoverlaps name spec hspec) hopen
    · intro role tool hmem
      obtain ⟨⟨name, client⟩, hclient, hvisible⟩ := List.mem_flatMap.mp hmem
      dsimp only at hvisible
      split_ifs at hvisible
      · obtain ⟨spec, hspec, hserves⟩ := hregisters.entry name client hclient
        obtain ⟨hopen, hcached⟩ := open_of_visibleTools hvisible
        obtain ⟨_, value, _, hparse⟩ := hserves.tools
        have hserver : tool.server = name :=
          (server_of_parseToolsList hparse tool hcached).trans (name_of_configured hspec)
        rw [hserves.spec_eq] at hopen
        exact ⟨spec, hserver ▸ hspec, permitted_of_open (hoverlaps name spec hspec) hopen⟩
      · cases hvisible

/-- The tool `search` is permitted of all servers, and of this one `read`. -/
def librarian : McpServerSpec := ⟨"librarian", ["librarian-mcp"], ["read"], .both, false⟩

/-- **Two lists without a common tool open every tool of the server**: one that neither of them has is called,
and told of. -/
theorem disjoint_lists_open : ∃ r client request,
    McpRegistry.new.registerAll [librarian] ⟨[], ["search"], .denyByDefault, ⟨[]⟩, ⟨"/project"⟩⟩
        (fun _ => .ok (oneTool "erase")) = (.ok (), r) ∧
      r.get "librarian" = some client ∧
      (client.callTool ⟨"librarian", "erase", .object []⟩ (.ok .null) 0).1 = some request ∧
      request.name = "erase" ∧
      (r.allTools .leadOnly).map McpToolInfo.name = ["erase"] ∧
      ¬ Permitted ["search"] librarian "erase" :=
  ⟨_, _, _, rfl, rfl, rfl, rfl, rfl, fun h => by simp [Permitted] at h⟩

end Nerve.Mcp
