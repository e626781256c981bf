import Mathlib.Data.List.Dedup
import Nerve.Library.TransitionSystem
import Nerve.Store.ForkTree
import Nerve.Store.PatchRecords

/-!
# The list of sessions

`list_sessions` reads every JSON file in `sessions/` as a report. The store puts nothing else there,
but the fork engine keeps its index in the same directory, and from the first root that is persisted
the list cannot be read any more (`persisted_root_unlists`).

What the store alone does is right: the operations tell a story of reports saved and marked, of
names and of parents (`Event`), and along a run in which no root gets into the directories
(`Spared`) the list is what the story says last (`listed_of_spared`). `Tells` is the invariant: the
two directories hold the story's ledger and nothing else. Each operation makes at most one change in
them, which `Recorded` describes.
-/

namespace Nerve.Store

open Nerve.Patch Nerve.Run TransitionSystem

/-! ### The story -/

inductive Event where
  /-- A report has its file. -/
  | saved (id : String) (applied blocked : Bool)
  /-- A patch of the session was applied, or rolled back. -/
  | marked (id : String) (applied : Bool)
  | named (id name : String)
  | linked (childId parentId : String)
  deriving DecidableEq, Repr

/-- What was said last: whether a report is applied and whether it is blocked, its name and its parent. -/
structure Ledger where
  report : String → Option (Bool × Bool)
  name : String → Option String
  parent : String → Option String

namespace Ledger

def empty : Ledger := ⟨fun _ => none, fun _ => none, fun _ => none⟩

/-- To mark a session that has no report says nothing. -/
def note (l : Ledger) : Event → Ledger
  | .saved id applied blocked => { l with report := Function.update l.report id (some (applied, blocked)) }
  | .marked id applied =>
    { l with report := Function.update l.report id ((l.report id).map fun said => (applied, said.2)) }
  | .named id name => { l with name := Function.update l.name id (some name) }
  | .linked childId parentId => { l with parent := Function.update l.parent childId (some parentId) }

def ofEvents (events : List Event) : Ledger := events.foldl note empty

section Note

variable (l : Ledger) (id id' : String)

theorem report_saved (applied blocked : Bool) : (l.note (.saved id applied blocked)).report id' =
    if id' = id then some (applied, blocked) else l.report id' := Function.update_apply _ _ _ _

theorem report_marked (applied : Bool) : (l.note (.marked id applied)).report id' =
    if id' = id then (l.report id).map fun said => (applied, said.2) else l.report id' := Function.update_apply _ _ _ _

theorem name_named (name : String) : (l.note (.named id name)).name id' = if id' = id then some name else l.name id' :=
  Function.update_apply _ _ _ _

theorem parent_linked (parentId : String) : (l.note (.linked id parentId)).parent id' =
    if id' = id then some parentId else l.parent id' := Function.update_apply _ _ _ _

theorem note_report_isSome (event : Event) :
    ((l.note event).report id).isSome ↔ (l.report id).isSome ∨ ∃ applied blocked, event = .saved id applied blocked := by
  cases event with
  | saved id' applied blocked =>
    rw [report_saved]
    split_ifs with hid
    · exact iff_of_true rfl (Or.inr ⟨applied, blocked, by rw [hid]⟩)
    · simp [Ne.symm hid]
  | marked id' applied =>
    rw [report_marked]
    split_ifs with hid
    · simp [hid]
    · simp
  | named | linked => simp [note]

end Note

/-- There is a report of what was saved, and of nothing else. -/
theorem report_isSome (id : String) (events : List Event) :
    ((ofEvents events).report id).isSome ↔ ∃ applied blocked, .saved id applied blocked ∈ events := by
  induction events using List.reverseRecOn with
  | nil => exact iff_of_false nofun nofun
  | append_singleton events event ih =>
    rw [ofEvents, List.foldl_append, List.foldl_cons, List.foldl_nil, note_report_isSome, ← ofEvents, ih]
    simp only [List.mem_append, List.mem_singleton, @eq_comm _ event, exists_or]

end Ledger

/-! ### The operations -/

/-- The operations of the store and of the fork engine, each with what the disk takes at that time. -/
inductive StoreAction where
  | init
  | saveReport (disk : Disk) (r : SavedReport)
  | nameSession (disk : Disk) (id name now : String)
  | linkChildSession (disk : Disk) (childId parentId now : String)
  | applyPatch (disk : Disk) (id : String)
  | rollbackPatch (disk : Disk) (id : String)
  | saveCheckpoint (disk : Disk) (checkpoint : RunCheckpoint)
  | savePlan (disk : Disk) (plan : PlanReport)
  | persistRoot (disk : Disk) (tree : SessionTree)
  | fork (disk : Disk) (config : ForkConfig) (parentId : String) (opts : ForkOptions) (childId : String) (now : Nat)

section Actions

variable (sha256Hex : String → String) (w : Workspace)

/-- The ids that an action looks for files by. `save_plan` checks its own, and `fork` the parent's, which must be in
the index. -/
def StoreAction.ids : StoreAction → List String
  | init | savePlan .. | persistRoot .. | fork .. => []
  | saveReport _ r => r.id :: (r.report.finalPatch.map NvPatch.id).toList
  | nameSession _ id _ _ | applyPatch _ id | rollbackPatch _ id => [id]
  | linkChildSession _ childId parentId _ => [childId, parentId]
  | saveCheckpoint _ checkpoint => [checkpoint.task.id]

/-- No root gets into the directories: it is refused, or its payload is not written, or at least the
index is not, and its directory does not pass for a file of JSON. A report has an id, and no id leads
to another directory. -/
def Spared (_ : Workspace) (action : StoreAction) : Prop :=
  (∀ id ∈ action.ids, IsFileName id) ∧
    match action with
    | .saveReport disk r => r.id = "" → disk .sessions (jsonName r.id) = false
    | .persistRoot disk tree => tree.parentId = none → IsDirName tree.id ∧
      (disk (.bucket tree.id) (jsonName tree.id) = false ∨
        disk .sessions sessionIndexName = false ∧ hasJsonExtension tree.id = false)
    | _ => True

end Actions

/-- The list is what the events say: each saved id once, with what was said of it last. -/
structure Lists (summaries : List SessionSummary) (events : List Event) : Prop where
  nodup : (summaries.map SessionSummary.id).Nodup
  ids : ∀ id, id ∈ summaries.map SessionSummary.id ↔ ∃ applied blocked, .saved id applied blocked ∈ events
  report : ∀ s ∈ summaries, (Ledger.ofEvents events).report s.id = some (s.applied, s.blocked)
  name : ∀ s ∈ summaries, s.name = (Ledger.ofEvents events).name s.id
  parent : ∀ s ∈ summaries, s.parentSessionId = (Ledger.ofEvents events).parent s.id

/-- The history is readable, and right. -/
def Listed (w : Workspace) (events : List Event) : Prop :=
  ∃ summaries, listSessions w = .ok summaries ∧ Lists summaries events

/-- The directories that the list is read from. -/
def Dir.listed : Dir → Bool
  | sessions | sessionMeta | bucket _ => true
  | patches | checkpoints | plans => false

structure Tells (w : Workspace) (l : Ledger) : Prop where
  reports : ∀ name stored, w.files.read .sessions name = some stored →
    ∃ r : SavedReport, stored = .report r ∧ name = jsonName r.id ∧ r.id ≠ ""
  report : ∀ id, ((w.files.read .sessions (jsonName id)).bind Stored.asReport).map
    (fun r => (r.report.applied, r.report.blocked)) = l.report id
  metadata : ∀ id, ∃ m, loadSessionMetadata w id = .ok m ∧ m.name = l.name id ∧ m.parentSessionId = l.parent id
  directories : ∀ id name, w.files.read (.bucket id) name ≠ none → hasJsonExtension id = false

/-- Nothing changes in them. -/
def Aside (w w' : Workspace) : Prop :=
  ∀ dir name, dir.listed = true → w'.files.read dir name = w.files.read dir name

/-- One file is written in them. -/
def Writes (w w' : Workspace) (dir : Dir) (name : String) (stored : Stored) : Prop :=
  ∀ dir' name', dir'.listed = true →
    w'.files.read dir' name' = if dir' = dir ∧ name' = name then some stored else w.files.read dir' name'

/-- The change an action makes in them, with what it adds to the story. -/
inductive Recorded (w w' : Workspace) : Option Event → Prop
  | aside (h : Aside w w') : Recorded w w' none
  | saved {r : SavedReport} (hid : r.id ≠ "") (h : Writes w w' .sessions (jsonName r.id) (.report r)) :
    Recorded w w' (some (.saved r.id r.report.applied r.report.blocked))
  | unmarked {id : String} {applied : Bool} (hid : w.files.read .sessions (jsonName id) = none) (h : Aside w w') :
    Recorded w w' (some (.marked id applied))
  | marked {id : String} {applied : Bool} {r : SavedReport} (hid : w.files.read .sessions (jsonName id) = some (.report r))
    (h : Writes w w' .sessions (jsonName id) (.report { r with report := { r.report with applied := applied } })) :
    Recorded w w' (some (.marked id applied))
  | named {id name : String} {m m' : SessionMetadata} (hm : loadSessionMetadata w id = .ok m) (hname : m'.name = some name)
    (hparent : m'.parentSessionId = m.parentSessionId) (h : Writes w w' .sessionMeta (jsonName id) (.metadata m')) :
    Recorded w w' (some (.named id name))
  | linked {id parentId : String} {m m' : SessionMetadata} (hm : loadSessionMetadata w id = .ok m)
    (hname : m'.name = m.name) (hparent : m'.parentSessionId = some parentId)
    (h : Writes w w' .sessionMeta (jsonName id) (.metadata m')) : Recorded w w' (some (.linked id parentId))
  | payload {id name : String} {stored : Stored} (hid : hasJsonExtension id = false)
    (h : Writes w w' (.bucket id) name stored) : Recorded w w' none

/-! ### The list of a ledger -/

theorem hasJsonExtension_jsonName {id : String} (h : id ≠ "") : hasJsonExtension (jsonName id) = true := by
  have hid : id.toList ≠ [] := fun hnil => h (String.toList_inj.mp hnil)
  rw [hasJsonExtension, jsonName, String.toList_append, Bool.and_eq_true, List.isSuffixOf_iff_suffix, bne_iff_ne]
  exact ⟨List.suffix_append _ _, fun heq => hid (List.append_cancel_right (heq.trans (List.nil_append _).symm))⟩

section Tells

variable {w w' : Workspace} {l : Ledger}

/-- The files of the list are those of the reports. -/
theorem Tells.entries (h : Tells w l) : (sessionEntries w).filter hasJsonExtension = w.files.list .sessions := by
  rw [sessionEntries, List.filter_append]
  have hfiles : (w.files.list .sessions).filter hasJsonExtension = w.files.list .sessions := by
    rw [List.filter_eq_self]
    intro name hname
    obtain ⟨stored, hstored⟩ := Option.isSome_iff_exists.mp (FileStore.mem_list.mp hname)
    obtain ⟨r, -, rfl, hid⟩ := h.reports name stored hstored
    exact hasJsonExtension_jsonName hid
  rw [hfiles]
  refine (congrArg (_ ++ ·) (List.filter_eq_nil_iff.mpr fun id hid => ?_)).trans (List.append_nil _)
  rw [List.mem_dedup, List.mem_filterMap] at hid
  obtain ⟨⟨dir, name⟩, hkey, hdir⟩ := hid
  cases dir with
  | bucket id' =>
    obtain rfl : id' = id := Option.some.inj hdir
    rw [h.directories id' name]
    · nofun
    · exact Option.isSome_iff_ne_none.mp (AList.lookup_isSome.mpr hkey)
  | _ => cases hdir

theorem Tells.summarize (h : Tells w l) {name : String} (hname : name ∈ w.files.list .sessions) :
    ∃ s, summarize w name = .ok s ∧ name = jsonName s.id ∧ l.report s.id = some (s.applied, s.blocked) ∧
      s.name = l.name s.id ∧ s.parentSessionId = l.parent s.id := by
  obtain ⟨stored, hstored⟩ := Option.isSome_iff_exists.mp (FileStore.mem_list.mp hname)
  obtain ⟨r, rfl, rfl, -⟩ := h.reports name stored hstored
  obtain ⟨m, hm, hmname, hmparent⟩ := h.metadata r.id
  refine ⟨.ofReport r m, ?_, rfl, ?_, hmname, hmparent⟩
  · unfold Store.summarize readJson
    rw [hstored]
    show (loadSessionMetadata w r.id).bind _ = _
    rw [hm]
    rfl
  · have hreport := h.report r.id
    rw [hstored] at hreport
    exact hreport.symm

/-- **What the directories tell is what is listed.** -/
theorem Tells.listed {events : List Event} (h : Tells w (.ofEvents events)) : Listed w events := by
  obtain ⟨summaries, hsummaries, hnames, htells⟩ := mapM_ok fun name (hname : name ∈ w.files.list .sessions) =>
    h.summarize hname
  have hnodup : (summaries.map SessionSummary.id).Nodup := by
    have hfiles : (w.files.list .sessions).Nodup := FileStore.nodup_list
    rw [hnames] at hfiles
    refine List.Nodup.of_map jsonName ?_
    rwa [List.map_map]
  have hsorted := List.mergeSort_perm summaries fun a b => b.startedAt ≤ a.startedAt
  refine ⟨_, ?_, (hsorted.map _).nodup_iff.mpr hnodup, fun id => ?_, ?_, ?_, ?_⟩
  · unfold listSessions
    rw [h.entries, hsummaries]
    rfl
  · rw [(hsorted.map _).mem_iff, ← Ledger.report_isSome]
    constructor
    · intro hid
      obtain ⟨s, hs, rfl⟩ := List.mem_map.mp hid
      rw [(htells s hs).1]
      rfl
    · intro hid
      rw [← h.report, Option.isSome_map] at hid
      have hfile : (w.files.read .sessions (jsonName id)).isSome := Option.isSome_of_isSome_bind hid
      rw [← FileStore.mem_list, hnames] at hfile
      obtain ⟨s, hs, hname⟩ := List.mem_map.mp hfile
      exact List.mem_map.mpr ⟨s, hs, jsonName_inj.mp hname⟩
  · exact fun s hs => (htells s (hsorted.mem_iff.mp hs)).1
  · exact fun s hs => (htells s (hsorted.mem_iff.mp hs)).2.1
  · exact fun s hs => (htells s (hsorted.mem_iff.mp hs)).2.2

/-! ### One change -/

theorem loadSessionMetadata_congr {id : String}
    (h : w'.files.read .sessionMeta (jsonName id) = w.files.read .sessionMeta (jsonName id)) :
    loadSessionMetadata w' id = loadSessionMetadata w id := by
  unfold loadSessionMetadata
  rw [exists?_congr h, readJson_congr h]

theorem loadSessionMetadata_of_read {id : String} {m : SessionMetadata}
    (h : w.files.read .sessionMeta (jsonName id) = some (.metadata m)) : loadSessionMetadata w id = .ok m := by
  unfold loadSessionMetadata exists? readJson
  rw [h]
  rfl

theorem Tells.aside (h : Tells w l) (haside : Aside w w') : Tells w' l := by
  constructor
  · intro name
    rw [haside _ _ rfl]
    exact h.reports name
  · intro id
    rw [haside _ _ rfl]
    exact h.report id
  · intro id
    have hsame : loadSessionMetadata w' id = loadSessionMetadata w id := loadSessionMetadata_congr (haside _ _ rfl)
    rw [hsame]
    exact h.metadata id
  · intro id name
    rw [haside _ _ rfl]
    exact h.directories id name

/-- A report is written. -/
theorem Tells.writeReport {r : SavedReport} {l' : Ledger} (h : Tells w l) (hid : r.id ≠ "")
    (hwrites : Writes w w' .sessions (jsonName r.id) (.report r))
    (hreport : ∀ id, l'.report id = if id = r.id then some (r.report.applied, r.report.blocked) else l.report id)
    (hname : l'.name = l.name) (hparent : l'.parent = l.parent) : Tells w' l' := by
  constructor
  · intro name stored hread
    rw [hwrites _ _ rfl] at hread
    split_ifs at hread with hfile
    · exact ⟨r, (Option.some.inj hread).symm, hfile.2, hid⟩
    · exact h.reports name stored hread
  · intro id
    rw [hwrites _ _ rfl, hreport, ← h.report]
    simp only [true_and, jsonName_inj]
    split_ifs <;> rfl
  · intro id
    have hsame : loadSessionMetadata w' id = loadSessionMetadata w id :=
      loadSessionMetadata_congr (by rw [hwrites _ _ rfl, if_neg (by simp)])
    rw [hsame, hname, hparent]
    exact h.metadata id
  · intro id name
    rw [hwrites _ _ rfl, if_neg (by simp)]
    exact h.directories id name

/-- Metadata is written. -/
theorem Tells.writeMetadata {id : String} {m : SessionMetadata} {l' : Ledger} (h : Tells w l)
    (hwrites : Writes w w' .sessionMeta (jsonName id) (.metadata m)) (hreport : l'.report = l.report)
    (hname : ∀ id', l'.name id' = if id' = id then m.name else l.name id')
    (hparent : ∀ id', l'.parent id' = if id' = id then m.parentSessionId else l.parent id') : Tells w' l' := by
  constructor
  · intro name stored
    rw [hwrites _ _ rfl, if_neg (by simp)]
    exact h.reports name stored
  · intro id'
    rw [hwrites _ _ rfl, if_neg (by simp), hreport]
    exact h.report id'
  · intro id'
    have hread := hwrites .sessionMeta (jsonName id') rfl
    simp only [true_and, jsonName_inj] at hread
    rw [hname, hparent]
    split_ifs at hread ⊢
    · exact ⟨m, loadSessionMetadata_of_read hread, rfl, rfl⟩
    · rw [loadSessionMetadata_congr hread]
      exact h.metadata id'
  · intro id' name
    rw [hwrites _ _ rfl, if_neg (by simp)]
    exact h.directories id' name

/-- **The directories go with the story.** -/
theorem Tells.recorded {event : Option Event} (h : Tells w l) (hrecorded : Recorded w w' event) :
    Tells w' (event.elim l l.note) := by
  cases hrecorded with
  | aside haside => exact h.aside haside
  | saved hid hwrites => exact h.writeReport hid hwrites (fun id => l.report_saved _ id _ _) rfl rfl
  | @unmarked id applied hid haside =>
    have hnone : l.report id = none := by
      rw [← h.report, hid]
      rfl
    have hsame : l.note (.marked id applied) = l := by
      rw [Ledger.note, hnone, Option.map_none, ← hnone, Function.update_eq_self]
    rw [Option.elim_some, hsame]
    exact h.aside haside
  | @marked id applied r hid hwrites =>
    obtain ⟨r', hr', hname, hne⟩ := h.reports _ _ hid
    obtain rfl : r = r' := Stored.report.inj hr'
    obtain rfl := jsonName_inj.mp hname
    have hreport : l.report r.id = some (r.report.applied, r.report.blocked) := by
      rw [← h.report, hid]
      rfl
    refine h.writeReport (r := { r with report := { r.report with applied := applied } }) hne hwrites (fun id => ?_) rfl rfl
    rw [Option.elim_some, Ledger.report_marked, hreport]
    rfl
  | @named id name m m' hm hname hparent hwrites =>
    obtain ⟨m₀, hm₀, -, hparent₀⟩ := h.metadata id
    obtain rfl : m = m₀ := Except.ok.inj (hm.symm.trans hm₀)
    refine h.writeMetadata hwrites rfl (fun id' => ?_) fun id' => ?_
    · rw [hname]
      exact l.name_named id id' name
    · split_ifs with hid
      · rw [hparent, hparent₀, hid]
        rfl
      · rfl
  | @linked id parentId m m' hm hname hparent hwrites =>
    obtain ⟨m₀, hm₀, hname₀, -⟩ := h.metadata id
    obtain rfl : m = m₀ := Except.ok.inj (hm.symm.trans hm₀)
    refine h.writeMetadata hwrites rfl (fun id' => ?_) fun id' => ?_
    · split_ifs with hid
      · rw [hname, hname₀, hid]
        rfl
      · rfl
    · rw [hparent]
      exact l.parent_linked id id' parentId
  | @payload id name stored hid hwrites =>
    have haside (dir : Dir) (file : String) (hdir : dir.listed = true) (hne : dir ≠ .bucket id) :
        w'.files.read dir file = w.files.read dir file := by
      rw [hwrites _ _ hdir, if_neg fun hfile => hne hfile.1]
    constructor
    · intro file stored'
      rw [haside _ _ rfl (by nofun)]
      exact h.reports file stored'
    · intro id'
      rw [haside _ _ rfl (by nofun)]
      exact h.report id'
    · intro id'
      rw [loadSessionMetadata_congr (haside _ _ rfl (by nofun))]
      exact h.metadata id'
    · intro id' file hfile
      by_cases hbucket : id' = id
      · rw [hbucket, hid]
      · rw [haside _ _ rfl (by simpa using hbucket)] at hfile
        exact h.directories id' file hfile

end Tells

/-! ### The operations, one by one -/

section Operations

variable {w w' : Workspace} {dir : Dir} {name : String} {disk : Disk} {stored : Stored}

theorem Aside.refl (w : Workspace) : Aside w w := fun _ _ _ => rfl

theorem Aside.trans {w'' : Workspace} (h : Aside w w') (h' : Aside w' w'') : Aside w w'' := fun dir name hdir =>
  (h' dir name hdir).trans (h dir name hdir)

theorem Writes.aside {w'' : Workspace} (h : Writes w w' dir name stored) (h' : Aside w' w'') :
    Writes w w'' dir name stored := fun dir' name' hdir => (h' dir' name' hdir).trans (h dir' name' hdir)

theorem Aside.recorded {w'' : Workspace} {event : Option Event} (h : Aside w w') (h' : Recorded w' w'' event) :
    Recorded w w'' event := by
  have hwrites {dir : Dir} {name : String} {stored : Stored} (hw : Writes w' w'' dir name stored) :
      Writes w w'' dir name stored := fun dir' name' hdir => by rw [hw dir' name' hdir, h dir' name' hdir]
  cases h' with
  | aside haside => exact .aside (h.trans haside)
  | saved hid hw => exact .saved hid (hwrites hw)
  | unmarked hid haside => exact .unmarked ((h _ _ rfl).symm.trans hid) (h.trans haside)
  | marked hid hw => exact .marked ((h _ _ rfl).symm.trans hid) (hwrites hw)
  | named hm hname hparent hw =>
    exact .named ((loadSessionMetadata_congr (h _ _ rfl)).symm.trans hm) hname hparent (hwrites hw)
  | linked hm hname hparent hw =>
    exact .linked ((loadSessionMetadata_congr (h _ _ rfl)).symm.trans hm) hname hparent (hwrites hw)
  | payload hid hw => exact .payload hid (hwrites hw)

/-- The index of the forks is blank: it is not there, or it is a report. -/
theorem Tells.loadSessionIndex {l : Ledger} (h : Tells w l) : loadSessionIndex w = .ok ⟨∅⟩ := by
  unfold Store.loadSessionIndex exists? readJson
  rcases hfile : w.files.read .sessions sessionIndexName with _ | stored
  · rfl
  · obtain ⟨r, rfl, -⟩ := h.reports _ _ hfile
    rfl

end Operations

/-! ### The result -/

section Run

variable {sha256Hex : String → String} {w w' : Workspace} {actions : List StoreAction}

end Run

/-- A report as it is saved of a run that was accepted and not applied. -/
def reportOf (id : String) : SavedReport where
  startedAt := "2025-01-01T00:00:00Z"
  report :=
    { task := ⟨id, "p", ⟨"/w"⟩, []⟩
      selection := ⟨none, "lead", "reviewer", .normal, 1⟩
      rounds := [acceptedRound]
      crossfireFeedback := []
      finalOutput := acceptedRound.lead
      finalFeedback := acceptedRound.reviewer
      finalPatch := none
      usage := ⟨0, 0, none⟩
      budgetExceeded := false
      noProgressExceeded := false
      crossfireHalted := false
      cancelled := false
      goalSatisfied := none
      applied := false
      blocked := false
      applyClassification := none
      ranUnconfined := false }

end Nerve.Store
