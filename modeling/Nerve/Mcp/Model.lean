import Nerve.Library.Json
import Nerve.Patch.Model

/-!
# MCP servers

The client side of `nerve-adapter/src/mcp.rs` as far as it decides what a server is asked: the
specification of a server, the registry that starts the servers and narrows their allowlists, the
checks a call passes before it is sent, and the list of tools the adapters are told of. What
a server answers, to the handshake and to a call, is the world's; timeouts are among its answers.
-/

namespace Nerve.Mcp

open Nerve.Patch

/-! ### Configuration -/

inductive McpRole where
  | reviewerOnly
  | leadOnly
  | both
  deriving DecidableEq, Repr

inductive McpReadOnlyPosture where
  | denyByDefault
  | legacyDenylist
  deriving DecidableEq, Repr

/-- The arguments of a tool that are confined paths, and what others must not contain. -/
structure McpToolArgRules where
  pathArgs : List String
  denySubstrings : List (String × List String)
  deriving DecidableEq, Repr

structure McpArgumentPolicy where
  tools : List (String × McpToolArgRules)
  deriving DecidableEq, Repr

structure McpServerSpec where
  name : String
  command : List String
  allowedTools : List String
  role : McpRole
  readOnly : Bool
  deriving DecidableEq, Repr

structure McpToolInfo where
  server : String
  name : String
  description : Option String
  inputSchema : Option Json
  readOnlyHint : Option Bool
  destructiveHint : Option Bool

structure McpToolCall where
  server : String
  tool : String
  arguments : Json

structure McpToolResult where
  server : String
  tool : String
  content : Json
  isError : Bool
  durationMs : Nat

def defaultWriteToolPatterns : List String :=
  ["shell", "exec", "fs.write", "fs.delete", "write_file", "run_command", "execute_command"]

inductive McpError where
  | notStarted (server : String)
  | toolBlocked (tool : String)
  | toolNotAllowed (tool : String)
  | toolNotReadOnly (tool : String)
  | argumentPolicy (tool reason : String)
  | io (source : String)
  | spawn (message : String)
  | handshake (message : String)
  | rpc (code : Int) (message : String)
  | timeout (secs : Nat)
  | serde (source : String)
  deriving DecidableEq, Repr

/-! ### Names and arguments -/

/-- The text occurs in the other, letter case aside. -/
def containsIgnoringCase (needle haystack : String) : Bool :=
  let lower (s : String) := s.toList.map Char.toLower
  (lower haystack).tails.any (lower needle).isPrefixOf

def toolMatchesWritePattern (tool : String) (patterns : List String) : Bool :=
  patterns.any fun pattern => !pattern.isEmpty && containsIgnoringCase pattern tool

def toolHasReadOnlyEvidence (tool : McpToolInfo) : Bool :=
  tool.readOnlyHint == some true || tool.destructiveHint == some false

def readOnlyAdmits (posture : McpReadOnlyPosture) (allowlisted evidence : Bool) : Bool :=
  match posture with
  | .legacyDenylist => true
  | .denyByDefault => allowlisted || evidence

/-- Walk the components on the stack; a step back at the root's depth is an escape. -/
def walkComponents (rootDepth : Nat) : List Component → List Component → Option (List Component)
  | stack, [] => some stack
  | stack, .curDir :: rest => walkComponents rootDepth stack rest
  | stack, .parentDir :: rest =>
    if stack.length ≤ rootDepth then none else walkComponents rootDepth stack.dropLast rest
  | stack, other :: rest => walkComponents rootDepth (stack ++ [other]) rest

def pathIsWithinRoot (candidate : String) (root : PathBuf) : Bool :=
  let rootComponents := root.components
  let components := (PathBuf.mk candidate).components
  let anchored := components.head? == some .rootDir
  let start := if anchored then [] else rootComponents
  (walkComponents rootComponents.length start components).any rootComponents.isPrefixOf

/-- The first key whose argument is a path that may escape. -/
def checkPathArgs (tool : String) (arguments : Json) (projectRoot : Option PathBuf) : List String → Except String Unit
  | [] => .ok ()
  | key :: keys =>
    match arguments.get? key with
    | some (.string raw) =>
      match projectRoot with
      | none => .error (s!"path argument `{key}` is policy-confined for tool `{tool}` but no project " ++
          "root is configured to confine it to")
      | some root =>
        if pathIsWithinRoot raw root then checkPathArgs tool arguments projectRoot keys
        else .error s!"path argument `{key}` = `{raw}` escapes the project root `{root.text}`"
    | _ => checkPathArgs tool arguments projectRoot keys

def checkDenySubstrings (arguments : Json) : List (String × List String) → Except String Unit
  | [] => .ok ()
  | (key, needles) :: rest =>
    match arguments.get? key with
    | some (.string raw) =>
      match needles.find? fun needle => !needle.isEmpty && containsIgnoringCase needle raw with
      | some needle => .error s!"argument `{key}` contains denied substring `{needle}`"
      | none => checkDenySubstrings arguments rest
    | _ => checkDenySubstrings arguments rest

def enforceArgumentPolicy (tool : String) (rules : McpToolArgRules) (arguments : Json)
    (projectRoot : Option PathBuf) : Except String Unit :=
  match checkPathArgs tool arguments projectRoot rules.pathArgs with
  | .error reason => .error reason
  | .ok () => checkDenySubstrings arguments rules.denySubstrings

/-! ### The client -/

structure McpClient where
  name : String
  spec : McpServerSpec
  /-- The child process is there. -/
  process : Bool
  toolsCache : List McpToolInfo
  writeToolPatterns : List String
  readOnlyPosture : McpReadOnlyPosture
  argumentPolicy : McpArgumentPolicy
  projectRoot : Option PathBuf

namespace McpClient

def new (spec : McpServerSpec) (writeToolPatterns : List String) (readOnlyPosture : McpReadOnlyPosture) : McpClient where
  name := spec.name
  spec := spec
  process := false
  toolsCache := []
  writeToolPatterns := writeToolPatterns
  readOnlyPosture := readOnlyPosture
  argumentPolicy := ⟨[]⟩
  projectRoot := none

def withArgumentPolicy (c : McpClient) (policy : McpArgumentPolicy) (projectRoot : PathBuf) : McpClient :=
  { c with argumentPolicy := policy, projectRoot := some projectRoot }

end McpClient

def parseTool (server : String) (entry : Json) : Except McpError McpToolInfo :=
  match (entry.get? "name").bind Json.asString with
  | none => .error (.handshake s!"`{server}`: tools/list entry missing `name`")
  | some name =>
    let annotation (key : String) := ((entry.get? "annotations").bind (Json.get? key)).bind Json.asBool
    .ok
      { server := server
        name := name
        description := (entry.get? "description").bind Json.asString
        inputSchema := entry.get? "inputSchema"
        readOnlyHint := annotation "readOnlyHint"
        destructiveHint := annotation "destructiveHint" }

def parseToolsList (server : String) (value : Json) : Except McpError (List McpToolInfo) :=
  match (value.get? "tools").bind Json.asArray with
  | none => .error (.handshake s!"`{server}`: tools/list missing `tools` array")
  | some tools => tools.mapM (parseTool server)

/-- What goes over the wire with a `tools/call`. -/
structure ToolRequest where
  name : String
  arguments : Json

namespace McpClient

variable (c : McpClient)

/-- Start the server: `answer` is what its spawning, its handshake and its `tools/list` come to. -/
def start (answer : Except McpError Json) : Except McpError McpClient :=
  if c.process then .error (.spawn s!"mcp server `{c.name}` already started")
  else if c.spec.command.isEmpty then .error (.spawn s!"mcp server `{c.name}`: command argv is empty")
  else
    match answer with
    | .error e => .error e
    | .ok value =>
      match parseToolsList c.name value with
      | .error e => .error e
      | .ok tools => .ok { c with process := true, toolsCache := tools }

def listTools : Except McpError (List McpToolInfo) :=
  if c.process then .ok c.toolsCache else .error (.notStarted c.name)

/-- The checks before a call is sent. -/
def checkCall (call : McpToolCall) : Except McpError Unit := do
  if !c.process then throw (.notStarted c.name)
  if !c.spec.allowedTools.isEmpty && !c.spec.allowedTools.contains call.tool then throw (.toolNotAllowed call.tool)
  if c.spec.readOnly then
    let allowlisted := !c.spec.allowedTools.isEmpty
    let evidence := c.toolsCache.any fun t => t.name == call.tool && toolHasReadOnlyEvidence t
    if !readOnlyAdmits c.readOnlyPosture allowlisted evidence then throw (.toolNotReadOnly call.tool)
    if toolMatchesWritePattern call.tool c.writeToolPatterns then throw (.toolBlocked call.tool)
  match c.argumentPolicy.tools.lookup call.tool with
  | none => pure ()
  | some rules =>
    match enforceArgumentPolicy call.tool rules call.arguments c.projectRoot with
    | .error reason => throw (.argumentPolicy call.tool reason)
    | .ok () => pure ()

/-- A call: what is sent, if anything, and the result, given the answer and the time it takes. -/
def callTool (call : McpToolCall) (answer : Except McpError Json) (durationMs : Nat) :
    Option ToolRequest × Except McpError McpToolResult :=
  match c.checkCall call with
  | .error e => (none, .error e)
  | .ok () =>
    (some ⟨call.tool, call.arguments⟩, answer.map fun value =>
      { server := c.name
        tool := call.tool
        content := (value.get? "content").getD (.array [])
        isError := ((value.get? "isError").bind Json.asBool).getD false
        durationMs := durationMs })

def shutdown : McpClient := { c with process := false }

end McpClient

/-! ### The registry -/

def roleMatches (specRole requested : McpRole) : Bool :=
  match specRole, requested with
  | .both, _ | _, .both | .reviewerOnly, .reviewerOnly | .leadOnly, .leadOnly => true
  | _, _ => false

/-- Narrow the server's allowlist to the global one. -/
def scopeMcpSpecToAllowlist (spec : McpServerSpec) (allowTools : List String) : McpServerSpec :=
  if allowTools.isEmpty then spec
  else if spec.allowedTools.isEmpty then { spec with allowedTools := allowTools }
  else { spec with allowedTools := spec.allowedTools.filter fun tool => allowTools.contains tool }

@[simp] theorem scope_name (spec : McpServerSpec) (allowTools : List String) :
    (scopeMcpSpecToAllowlist spec allowTools).name = spec.name := by
  unfold scopeMcpSpecToAllowlist
  split_ifs <;> rfl

@[simp] theorem scope_command (spec : McpServerSpec) (allowTools : List String) :
    (scopeMcpSpecToAllowlist spec allowTools).command = spec.command := by
  unfold scopeMcpSpecToAllowlist
  split_ifs <;> rfl

/-- The started clients, by name; in which order they are gone through is not said. -/
structure McpRegistry where
  clients : List (String × McpClient)

namespace McpRegistry

def new : McpRegistry := ⟨[]⟩

/-- `HashMap::insert`. -/
def insert (r : McpRegistry) (name : String) (client : McpClient) : McpRegistry :=
  ⟨(name, client) :: r.clients.filter fun entry => entry.1 != name⟩

def get (r : McpRegistry) (name : String) : Option McpClient := r.clients.lookup name

def shutdownAll (r : McpRegistry) : McpRegistry := ⟨r.clients.map fun (name, client) => (name, client.shutdown)⟩

/-- How the calls are checked that go to a registry's servers. -/
structure Guards where
  writePatterns : List String
  allowTools : List String
  readOnlyPosture : McpReadOnlyPosture
  argumentPolicy : McpArgumentPolicy
  projectRoot : PathBuf

/-- Start every server. `answers` is what the world answers to each start. -/
def registerAll (r : McpRegistry) (specs : List McpServerSpec) (guards : Guards)
    (answers : Nat → Except McpError Json) : Except McpError Unit × McpRegistry :=
  let patterns := if guards.writePatterns.isEmpty then defaultWriteToolPatterns else guards.writePatterns
  let rec go (r : McpRegistry) (index : Nat) : List McpServerSpec → Except McpError Unit × McpRegistry
    | [] => (.ok (), r)
    | spec :: specs =>
      let spec := scopeMcpSpecToAllowlist spec guards.allowTools
      let client := (McpClient.new spec patterns guards.readOnlyPosture).withArgumentPolicy guards.argumentPolicy
        guards.projectRoot
      match client.start (answers index) with
      | .error e => (.error e, r.shutdownAll)
      | .ok client => go (r.insert spec.name client) (index + 1) specs
  go r 0 specs

/-- The client's tools that the adapters are told of. -/
def visibleTools (client : McpClient) : List McpToolInfo :=
  match client.listTools with
  | .error _ => []
  | .ok tools => tools.filter fun tool =>
    !(!client.spec.allowedTools.isEmpty && !client.spec.allowedTools.contains tool.name)

def allTools (r : McpRegistry) (role : McpRole) : List McpToolInfo :=
  r.clients.flatMap fun (_, client) => if roleMatches client.spec.role role then visibleTools client else []

end McpRegistry

end Nerve.Mcp
