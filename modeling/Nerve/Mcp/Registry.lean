import Nerve.Mcp.Model
import Mathlib.Data.List.Nodup
import Mathlib.Tactic.Common

/-!
# Registering servers, all or nothing

The clients of a registry are shared: who has got one from it has the same client as the registry, and sees it
shut down. So a registry is a map from names to handles here, and the clients are what the handles stand for;
`view_registerAll` is the tie to the registry that holds them by value.

A server that fails to start ends `register_all`, which then shuts down all that the registry has: those that
this call has started, which stay registered, and those that were there before it, which nobody
asked to be shut down. `allOrNothing_iff` says when the call leaves nothing behind, and when an `Ok` means that
every server is there: of two specifications with one name only the last is.
-/

namespace Nerve.Mcp

/-- A registry of shared clients. A handle that is registered stands for a client, and no name is there twice. -/
structure SharedRegistry where
  heap : List McpClient
  clients : List (String × Nat)
  live : ∀ entry ∈ clients, entry.2 < heap.length
  names : (clients.map Prod.fst).Nodup

namespace SharedRegistry

def new : SharedRegistry where
  heap := []
  clients := []
  live := by simp
  names := List.nodup_nil

variable (s : SharedRegistry)

def get (name : String) : Option Nat := s.clients.lookup name

def iter : List (String × Nat) := s.clients

/-- The client a handle stands for. -/
def client? (handle : Nat) : Option McpClient := s.heap[handle]?

/-- `HashMap::insert` of a new `Arc`. -/
def insert (name : String) (client : McpClient) : SharedRegistry where
  heap := s.heap ++ [client]
  clients := (name, s.heap.length) :: s.clients.filter fun entry => entry.1 != name
  live := by
    intro entry h
    rw [List.length_append, List.length_singleton]
    rcases List.mem_cons.mp h with rfl | h
    · exact Nat.lt_succ_self _
    · exact (s.live entry (List.mem_filter.mp h).1).trans (Nat.lt_succ_self _)
  names := by
    rw [List.map_cons, List.nodup_cons]
    refine ⟨fun h => ?_, s.names.sublist (List.filter_sublist.map _)⟩
    obtain ⟨entry, hentry, rfl⟩ := List.mem_map.mp h
    simpa using (List.mem_filter.mp hentry).2

def shutdownAll : SharedRegistry where
  heap := s.heap.mapIdx fun handle client =>
    if s.clients.any fun entry => entry.2 == handle then client.shutdown else client
  clients := s.clients
  live := by simpa using s.live
  names := s.names

end SharedRegistry

/-- The client `register_all` makes for a server. -/
def newClient (guards : McpRegistry.Guards) (spec : McpServerSpec) : McpClient :=
  (McpClient.new (scopeMcpSpecToAllowlist spec guards.allowTools)
    (if guards.writePatterns.isEmpty then defaultWriteToolPatterns else guards.writePatterns)
    guards.readOnlyPosture).withArgumentPolicy guards.argumentPolicy guards.projectRoot

/-- The server starts, given what its start comes to. -/
def starts (guards : McpRegistry.Guards) (spec : McpServerSpec) (answer : Except McpError Json) : Bool :=
  ((newClient guards spec).start answer).toOption.isSome

namespace SharedRegistry

/-- Start the servers from the `index`-th on. -/
def registerFrom (guards : McpRegistry.Guards) (answers : Nat → Except McpError Json) (s : SharedRegistry) (index : Nat) :
    List McpServerSpec → Except McpError Unit × SharedRegistry
  | [] => (.ok (), s)
  | spec :: specs =>
    match (newClient guards spec).start (answers index) with
    | .error e => (.error e, s.shutdownAll)
    | .ok client => registerFrom guards answers (s.insert spec.name client) (index + 1) specs

/-- Start every server. `answers` is what the world answers to each start. -/
def registerAll (s : SharedRegistry) (specs : List McpServerSpec) (guards : McpRegistry.Guards)
    (answers : Nat → Except McpError Json) : Except McpError Unit × SharedRegistry :=
  s.registerFrom guards answers 0 specs

/-- Either nothing of the call is left behind, and what was there is as it was, or every server is there. -/
structure AllOrNothing (s : SharedRegistry) (specs : List McpServerSpec) (guards : McpRegistry.Guards)
    (answers : Nat → Except McpError Json) : Prop where
  nothing : ∀ e s', s.registerAll specs guards answers = (.error e, s') →
    (∀ name, s'.get name = s.get name) ∧ (∀ entry, entry ∈ s'.iter ↔ entry ∈ s.iter) ∧
      ∀ entry ∈ s.iter, s'.client? entry.2 = s.client? entry.2
  all : ∀ s', s.registerAll specs guards answers = (.ok (), s') →
    -- The clients of the call get the handles that follow on those of the registry.
    ∀ i spec, specs[i]? = some spec → s'.get spec.name = some (s.heap.length + i) ∧
      ∃ client, s'.client? (s.heap.length + i) = some client ∧
        client.spec = scopeMcpSpecToAllowlist spec guards.allowTools ∧ client.process = true

end SharedRegistry

theorem lookup_filter_ne {β : Type*} {entries : List (String × β)} {name n : String} (h : n ≠ name) :
    (entries.filter fun entry => entry.1 != name).lookup n = entries.lookup n := by
  induction entries with
  | nil => rfl
  | cons entry entries ih =>
    obtain ⟨n', value⟩ := entry
    by_cases hn : n' = name
    · subst hn
      rw [List.filter_cons_of_neg (by simp), ih, List.lookup_cons, beq_eq_false_iff_ne.mpr h]
    · rw [List.filter_cons_of_pos (by simpa using hn), List.lookup_cons, List.lookup_cons, ih]

/-- The patterns of the guards, or those that are there without any. -/
def McpRegistry.Guards.patterns (guards : McpRegistry.Guards) : List String :=
  if guards.writePatterns.isEmpty then defaultWriteToolPatterns else guards.writePatterns

/-- One server is started, and the rest after it. -/
theorem McpRegistry.go_cons (guards : McpRegistry.Guards) (answers : Nat → Except McpError Json) (r : McpRegistry)
    (index : Nat) (spec : McpServerSpec) (specs : List McpServerSpec) :
    registerAll.go guards answers guards.patterns r index (spec :: specs) =
      match (newClient guards spec).start (answers index) with
      | .error e => (.error e, r.shutdownAll)
      | .ok client => registerAll.go guards answers guards.patterns (r.insert spec.name client) (index + 1) specs := by
  rw [registerAll.go, scope_name]
  rfl

/-- `HashMap::get` after an `insert`. -/
theorem McpRegistry.get_insert (r : McpRegistry) (name n : String) (client : McpClient) :
    (r.insert name client).get n = if n = name then some client else r.get n := by
  unfold McpRegistry.get McpRegistry.insert
  dsimp only
  rw [List.lookup_cons]
  by_cases h : n = name
  · simp [h]
  · rw [if_neg h, beq_eq_false_iff_ne.mpr h]
    exact lookup_filter_ne h

variable {s : SharedRegistry} {guards : McpRegistry.Guards} {answers : Nat → Except McpError Json}

namespace SharedRegistry

/-! ### Handles -/

@[simp] theorem length_insert (name : String) (client : McpClient) :
    (s.insert name client).heap.length = s.heap.length + 1 := List.length_append

theorem get_insert (name n : String) (client : McpClient) :
    (s.insert name client).get n = if n = name then some s.heap.length else s.get n := by
  unfold get insert
  dsimp only
  rw [List.lookup_cons]
  by_cases h : n = name
  · simp [h]
  · rw [if_neg h, beq_eq_false_iff_ne.mpr h]
    exact lookup_filter_ne h

theorem client?_insert_of_lt {handle : Nat} (h : handle < s.heap.length) (name : String) (client : McpClient) :
    (s.insert name client).client? handle = s.client? handle := List.getElem?_append_left h

theorem client?_insert_new (name : String) (client : McpClient) :
    (s.insert name client).client? s.heap.length = some client := by
  rw [client?, insert, List.getElem?_append_right le_rfl, Nat.sub_self]
  rfl

theorem mem_iter_of_get {name : String} {handle : Nat} (h : s.get name = some handle) : (name, handle) ∈ s.iter := by
  obtain ⟨before, after, heq, -⟩ := List.lookup_eq_some_iff.mp h
  rw [iter, heq]
  exact List.mem_append_right _ List.mem_cons_self

theorem client?_shutdownAll {entry : String × Nat} (h : entry ∈ s.iter) :
    s.shutdownAll.client? entry.2 = (s.client? entry.2).map McpClient.shutdown := by
  have hany : (s.clients.any fun entry' => entry'.2 == entry.2) = true :=
    List.any_eq_true.mpr ⟨entry, h, beq_self_eq_true _⟩
  rw [client?, client?, shutdownAll, List.getElem?_mapIdx]
  simp only [hany, if_true]

/-! ### The registry by value -/

/-- The registry with the clients instead of their handles. -/
def view (s : SharedRegistry) : McpRegistry :=
  ⟨s.clients.filterMap fun entry => (s.client? entry.2).map (entry.1, ·)⟩

theorem view_insert (name : String) (client : McpClient) : (s.insert name client).view = s.view.insert name client := by
  unfold view McpRegistry.insert
  rw [show (s.insert name client).clients = (name, s.heap.length) :: s.clients.filter fun entry => entry.1 != name from rfl,
    List.filterMap_cons, client?_insert_new, Option.map_some, List.filter_filterMap, List.filterMap_filter]
  refine congrArg (fun clients => McpRegistry.mk (_ :: clients)) (List.filterMap_congr fun entry hentry => ?_)
  rw [client?_insert_of_lt (s.live entry hentry)]
  rcases hclient : s.client? entry.2 with _ | client'
  · simp
  · by_cases hname : entry.1 = name <;> simp [hname, Option.filter]

theorem view_shutdownAll : s.shutdownAll.view = s.view.shutdownAll := by
  unfold view McpRegistry.shutdownAll
  rw [List.map_filterMap]
  refine congrArg McpRegistry.mk (List.filterMap_congr fun entry (hentry : entry ∈ s.clients) => ?_)
  rw [client?_shutdownAll hentry]
  rcases s.client? entry.2 with _ | client <;> rfl

/-- **Seen by value, this is the registry's `register_all`.** -/
theorem view_registerAll (specs : List McpServerSpec) :
    Prod.map id view (s.registerAll specs guards answers) = s.view.registerAll specs guards answers := by
  change Prod.map id view (s.registerFrom guards answers 0 specs) =
    McpRegistry.registerAll.go guards answers guards.patterns s.view 0 specs
  generalize (0 : Nat) = index
  induction specs generalizing s index with
  | nil => rfl
  | cons spec specs ih =>
    rw [registerFrom, McpRegistry.go_cons]
    rcases (newClient guards spec).start (answers index) with e | client
    · exact congrArg (Prod.mk (Except.error e)) view_shutdownAll
    · exact (ih _).trans (by rw [view_insert])

/-! ### What a call leaves -/

/-- The clients that are registered, one after the other. -/
def insertAll (s : SharedRegistry) : List (String × McpClient) → SharedRegistry
  | [] => s
  | (name, client) :: entries => insertAll (s.insert name client) entries

theorem insertAll_nil : s.insertAll [] = s := rfl

theorem insertAll_cons (entry : String × McpClient) (entries : List (String × McpClient)) :
    s.insertAll (entry :: entries) = (s.insert entry.1 entry.2).insertAll entries := rfl

theorem get_insertAll_of_notMem {entries : List (String × McpClient)} {name : String}
    (h : name ∉ entries.map Prod.fst) : (s.insertAll entries).get name = s.get name := by
  induction entries generalizing s with
  | nil => rfl
  | cons entry entries ih =>
    rw [List.map_cons, List.mem_cons, not_or] at h
    rw [insertAll_cons, ih h.2, get_insert, if_neg h.1]

/-- A client of the call is one the registry did not have. -/
theorem le_get_insertAll {entries : List (String × McpClient)} {name : String} (h : name ∈ entries.map Prod.fst) :
    ∃ handle, (s.insertAll entries).get name = some handle ∧ s.heap.length ≤ handle := by
  induction entries generalizing s with
  | nil => cases h
  | cons entry entries ih =>
    rw [insertAll_cons]
    by_cases hrest : name ∈ entries.map Prod.fst
    · obtain ⟨handle, hget, hle⟩ := ih (s := s.insert entry.1 entry.2) hrest
      rw [length_insert] at hle
      exact ⟨handle, hget, by omega⟩
    · obtain rfl : name = entry.1 := (List.mem_cons.mp h).resolve_right hrest
      exact ⟨s.heap.length, by rw [get_insertAll_of_notMem hrest, get_insert, if_pos rfl], le_rfl⟩

theorem client?_insertAll_of_lt {entries : List (String × McpClient)} {handle : Nat} (h : handle < s.heap.length) :
    (s.insertAll entries).client? handle = s.client? handle := by
  induction entries generalizing s with
  | nil => rfl
  | cons entry entries ih => rw [insertAll_cons, ih (by rw [length_insert]; omega), client?_insert_of_lt h]

theorem client?_insertAll {entries : List (String × McpClient)} {i : Nat} {entry : String × McpClient}
    (h : entries[i]? = some entry) : (s.insertAll entries).client? (s.heap.length + i) = some entry.2 := by
  induction entries generalizing s i with
  | nil => cases h
  | cons entry' entries ih =>
    rw [insertAll_cons]
    cases i with
    | zero =>
      cases h
      rw [Nat.add_zero, client?_insertAll_of_lt (by rw [length_insert]; omega), client?_insert_new]
    | succ i =>
      rw [← ih (s := s.insert entry'.1 entry'.2) h, length_insert]
      congr 1
      omega

theorem get_insertAll {entries : List (String × McpClient)} (hnames : (entries.map Prod.fst).Nodup) {i : Nat}
    {entry : String × McpClient} (h : entries[i]? = some entry) :
    (s.insertAll entries).get entry.1 = some (s.heap.length + i) := by
  induction entries generalizing s i with
  | nil => cases h
  | cons entry' entries ih =>
    rw [List.map_cons, List.nodup_cons] at hnames
    rw [insertAll_cons]
    cases i with
    | zero =>
      cases h
      rw [get_insertAll_of_notMem hnames.1, get_insert, if_pos rfl, Nat.add_zero]
    | succ i =>
      rw [ih hnames.2 h, length_insert]
      congr 1
      omega

end SharedRegistry

/-- The servers have been started, from the `index`-th on, with these clients. -/
inductive Started (guards : McpRegistry.Guards) (answers : Nat → Except McpError Json) :
    Nat → List McpServerSpec → List (String × McpClient) → Prop
  | nil {index : Nat} : Started guards answers index [] []
  | cons {index : Nat} {spec : McpServerSpec} {specs : List McpServerSpec} {client : McpClient}
    {entries : List (String × McpClient)} (hstart : (newClient guards spec).start (answers index) = .ok client)
    (hrest : Started guards answers (index + 1) specs entries) :
    Started guards answers index (spec :: specs) ((spec.name, client) :: entries)

theorem start_newClient {spec : McpServerSpec} {answer : Except McpError Json} {client : McpClient}
    (h : (newClient guards spec).start answer = .ok client) :
    client.spec = scopeMcpSpecToAllowlist spec guards.allowTools ∧ client.process = true := by
  unfold McpClient.start at h
  split_ifs at h
  rcases answer with e | value
  · cases h
  · dsimp only at h
    split at h
    · cases h
    · obtain rfl := Except.ok.inj h
      exact ⟨rfl, rfl⟩

theorem starts_iff {spec : McpServerSpec} {answer : Except McpError Json} :
    starts guards spec answer = true ↔ ∃ client, (newClient guards spec).start answer = .ok client := by
  unfold starts
  rcases (newClient guards spec).start answer with e | client <;> simp [Except.toOption]

namespace Started

variable {index : Nat} {specs : List McpServerSpec} {entries : List (String × McpClient)}

theorem names_eq (h : Started guards answers index specs entries) :
    entries.map Prod.fst = specs.map McpServerSpec.name := by
  induction h with
  | nil => rfl
  | cons _ _ ih => rw [List.map_cons, List.map_cons, ih]

theorem entry (h : Started guards answers index specs entries) {i : Nat} {spec : McpServerSpec}
    (hspec : specs[i]? = some spec) : ∃ client, entries[i]? = some (spec.name, client) ∧
      (newClient guards spec).start (answers (index + i)) = .ok client := by
  induction h generalizing i with
  | nil => cases hspec
  | @cons index _ _ client _ hstart _ ih =>
    cases i with
    | zero =>
      cases hspec
      exact ⟨client, rfl, hstart⟩
    | succ i =>
      rw [show index + (i + 1) = index + 1 + i by omega]
      exact ih hspec

end Started

namespace SharedRegistry

/-- Either every server starts and is registered, or one does not, and all that is there is shut down. -/
theorem registerFrom_cases (index : Nat) (specs : List McpServerSpec) :
    (∃ entries, Started guards answers index specs entries ∧
      s.registerFrom guards answers index specs = (.ok (), s.insertAll entries)) ∨
    ∃ pre spec post entries e, specs = pre ++ spec :: post ∧ Started guards answers index pre entries ∧
      (newClient guards spec).start (answers (index + pre.length)) = .error e ∧
      s.registerFrom guards answers index specs = (.error e, (s.insertAll entries).shutdownAll) := by
  induction specs generalizing s index with
  | nil => exact Or.inl ⟨[], .nil, rfl⟩
  | cons spec specs ih =>
    rw [registerFrom]
    rcases hstart : (newClient guards spec).start (answers index) with e | client
    · exact Or.inr ⟨[], spec, specs, [], e, rfl, .nil, hstart, rfl⟩
    · rcases ih (s := s.insert spec.name client) (index + 1) with
        ⟨entries, hstarted, hr⟩ | ⟨pre, spec', post, entries, e, rfl, hstarted, hfails, hr⟩
      · exact Or.inl ⟨_, .cons hstart hstarted, hr⟩
      · refine Or.inr ⟨spec :: pre, spec', post, _, e, rfl, .cons hstart hstarted, ?_, hr⟩
        rw [List.length_cons, show index + (pre.length + 1) = index + 1 + pre.length by omega]
        exact hfails

/-- Every server starts, and no two have one name. -/
def EveryStarts (specs : List McpServerSpec) (guards : McpRegistry.Guards) (answers : Nat → Except McpError Json) : Prop :=
  (∀ i spec, specs[i]? = some spec → starts guards spec (answers i) = true) ∧ (specs.map McpServerSpec.name).Nodup

/-- Nothing is running that the call could shut down: the first server fails, and those registered are shut down. -/
def NothingToLose (s : SharedRegistry) (specs : List McpServerSpec) (guards : McpRegistry.Guards)
    (answers : Nat → Except McpError Json) : Prop :=
  (∃ spec, specs.head? = some spec ∧ starts guards spec (answers 0) = false) ∧
    ∀ entry ∈ s.iter, ∀ client, s.client? entry.2 = some client → client.process = false

theorem names_of_all {specs : List McpServerSpec} {s' : SharedRegistry} (hr : s.registerAll specs guards answers = (.ok (), s'))
    (h : s.AllOrNothing specs guards answers) : (specs.map McpServerSpec.name).Nodup := by
  rw [List.nodup_iff_getElem?_ne_getElem?]
  intro i j hij hj heq
  rw [List.length_map] at hj
  rw [List.getElem?_map, List.getElem?_map, List.getElem?_eq_getElem (hij.trans hj), List.getElem?_eq_getElem hj,
    Option.map_some, Option.map_some, Option.some.injEq] at heq
  have hi := (h.all s' hr i _ (List.getElem?_eq_getElem (hij.trans hj))).1
  rw [heq, (h.all s' hr j _ (List.getElem?_eq_getElem hj)).1, Option.some.injEq] at hi
  omega

theorem allOrNothing_of_started {specs : List McpServerSpec} {entries : List (String × McpClient)}
    (hstarted : Started guards answers 0 specs entries)
    (hr : s.registerAll specs guards answers = (.ok (), s.insertAll entries))
    (hnames : (specs.map McpServerSpec.name).Nodup) : s.AllOrNothing specs guards answers := by
  constructor
  · intro e s' h
    rw [hr] at h
    cases h
  · intro s' h i spec hspec
    rw [hr] at h
    cases h
    obtain ⟨client, hentry, hstart⟩ := hstarted.entry hspec
    obtain ⟨hscoped, hprocess⟩ := start_newClient hstart
    rw [← hstarted.names_eq] at hnames
    exact ⟨get_insertAll hnames hentry, client, client?_insertAll hentry, hscoped, hprocess⟩

theorem allOrNothing_of_stopped {specs : List McpServerSpec} {e : McpError}
    (hr : s.registerAll specs guards answers = (.error e, s.shutdownAll))
    (hstopped : ∀ entry ∈ s.iter, ∀ client, s.client? entry.2 = some client → client.process = false) :
    s.AllOrNothing specs guards answers := by
  constructor
  · intro e' s' h
    rw [hr] at h
    cases h
    refine ⟨fun _ => rfl, fun _ => Iff.rfl, fun entry hentry => ?_⟩
    rw [client?_shutdownAll hentry]
    rcases hc : s.client? entry.2 with _ | client
    · rfl
    · rw [Option.map_some, McpClient.shutdown, ← hstopped entry hentry client hc]
  · intro s' h
    rw [hr] at h
    cases h

/-- **A call is all or nothing exactly if every server starts, under a name of its own, or the first one fails and
no client is running that was registered before.** -/
theorem allOrNothing_iff (s : SharedRegistry) (specs : List McpServerSpec) (guards : McpRegistry.Guards)
    (answers : Nat → Except McpError Json) :
    s.AllOrNothing specs guards answers ↔ EveryStarts specs guards answers ∨ s.NothingToLose specs guards answers := by
  have hcases : (∃ entries, Started guards answers 0 specs entries ∧
      s.registerFrom guards answers 0 specs = (.ok (), s.insertAll entries)) ∨ _ := registerFrom_cases 0 specs
  rcases hcases with
    ⟨entries, hstarted, hr⟩ | ⟨pre, spec, post, entries, e, rfl, hstarted, hfails, hr⟩
  · constructor
    · intro h
      refine Or.inl ⟨fun i spec hspec => ?_, names_of_all hr h⟩
      obtain ⟨client, -, hstart⟩ := hstarted.entry hspec
      rw [Nat.zero_add] at hstart
      exact starts_iff.mpr ⟨client, hstart⟩
    · rintro (⟨-, hnames⟩ | ⟨⟨spec, hhead, hfails⟩, -⟩)
      · exact allOrNothing_of_started hstarted hr hnames
      · rw [List.head?_eq_getElem?] at hhead
        obtain ⟨client, -, hstart⟩ := hstarted.entry hhead
        rw [starts_iff.mpr ⟨client, hstart⟩] at hfails
        cases hfails
  · have hnot : starts guards spec (answers pre.length) = false := by
      rw [Nat.zero_add] at hfails
      unfold starts
      rw [hfails]
      rfl
    constructor
    · intro h
      obtain ⟨hget, -, hclient⟩ := h.nothing e _ hr
      obtain rfl : entries = [] := by
        rcases entries with _ | ⟨entry, entries⟩
        · rfl
        · have hmem : entry.1 ∈ (entry :: entries).map Prod.fst := List.mem_cons_self
          obtain ⟨handle, hnew, hle⟩ := le_get_insertAll (s := s) hmem
          have hold : s.get entry.1 = some handle := (hget entry.1).symm.trans hnew
          exact absurd (s.live _ (mem_iter_of_get hold)) (not_lt.mpr hle)
      cases hstarted
      refine Or.inr ⟨⟨spec, rfl, hnot⟩, fun entry hentry client hc => ?_⟩
      have hsame := hclient entry hentry
      rw [insertAll_nil, client?_shutdownAll hentry, hc, Option.map_some, Option.some.injEq] at hsame
      rw [← hsame]
      rfl
    · rintro (⟨hstarts, -⟩ | ⟨⟨spec', hhead, hfirst⟩, hstopped⟩)
      · rw [hstarts pre.length spec (by simp)] at hnot
        cases hnot
      · cases hstarted with
        | nil => exact allOrNothing_of_stopped hr hstopped
        | @cons _ _ _ client _ hstart _ =>
          obtain rfl := Option.some.inj hhead
          rw [starts_iff.mpr ⟨client, hstart⟩] at hfirst
          cases hfirst

/-- A server, and how to check its calls. -/
def serverNamed (name : String) : McpServerSpec := ⟨name, [name ++ "-mcp"], [], .both, true⟩

def plainGuards : McpRegistry.Guards := ⟨[], [], .denyByDefault, ⟨[]⟩, ⟨"/project"⟩⟩

/-- The first server starts and lists no tools; the others do not start. -/
def onlyFirstStarts : Nat → Except McpError Json
  | 0 => .ok (.object [("tools", .array [])])
  | _ => .error (.spawn "no such file")

/-- With `search` registered and running. -/
def searchRegistered : SharedRegistry := (new.registerAll [serverNamed "search"] plainGuards onlyFirstStarts).2

/-- **A call that fails leaves a client behind, and stops one that was there**: `files` starts, `tests` does not. -/
theorem failure_leaves_behind : ∃ e s',
    searchRegistered.registerAll [serverNamed "files", serverNamed "tests"] plainGuards onlyFirstStarts = (.error e, s') ∧
      (searchRegistered.get "files" = none ∧ s'.get "files" = some 1) ∧
      ((searchRegistered.client? 0).map McpClient.process = some true ∧
        (s'.client? 0).map McpClient.process = some false) ∧
      ¬ searchRegistered.AllOrNothing [serverNamed "files", serverNamed "tests"] plainGuards onlyFirstStarts := by
  refine ⟨_, _, rfl, ⟨rfl, rfl⟩, ⟨rfl, rfl⟩, fun h => ?_⟩
  have hget := (h.nothing _ _ rfl).1 "files"
  cases hget

end SharedRegistry

end Nerve.Mcp
