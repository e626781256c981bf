import Nerve.Queue.Model
import Mathlib

/-!
# The queue's directories as they are found

The queue is whatever stands in its directories: besides the task files that the operations write
there may be files that are not JSON, files of another task's payload, names that no task has, and
one name in several directories. A directory is a `Listing`, its names in the order in which
`read_dir` gives them, so that the same directory listed in another order is a listing with the same
entries. Names that are not UTF-8 are passed over by all that is modelled here, and are left out.

The JSON readers are parameters (`Readers`): from a text they give the value or the parser's
message.
-/

namespace Nerve.Queue

/-! ### Names -/

/-- `Path::file_stem` of a name whose `Path::extension` is `json`. -/
def jsonStem (name : String) : Option String :=
  if ".json".toList.isSuffixOf name.toList ∧ 5 < name.toList.length then
    some (String.ofList (name.toList.take (name.toList.length - 5)))
  else none

theorem jsonStem_eq_some {name stem : String} : jsonStem name = some stem ↔ name = stem ++ ".json" ∧ stem ≠ "" := by
  have hlength : ".json".toList.length = 5 := rfl
  unfold jsonStem
  constructor
  · intro h
    split_ifs at h with hc
    obtain ⟨hsuffix, hlong⟩ := hc
    obtain ⟨rest, hrest⟩ := List.isSuffixOf_iff_suffix.mp hsuffix
    obtain rfl := Option.some.inj h
    rw [← hrest, List.length_append, hlength] at hlong ⊢
    rw [Nat.add_sub_cancel, List.take_left']
    · refine ⟨String.toList_inj.mp ?_, fun he => ?_⟩
      · simp [← hrest]
      · rw [← String.toList_eq_nil_iff, String.toList_ofList] at he
        simp [he] at hlong
    · rfl
  · rintro ⟨rfl, hne⟩
    have hpos : 0 < stem.toList.length := List.length_pos_iff.mpr fun h => hne (String.toList_eq_nil_iff.mp h)
    rw [String.toList_append, if_pos, List.length_append, hlength, Nat.add_sub_cancel, List.take_left' rfl,
      String.ofList_toList]
    exact ⟨List.isSuffixOf_iff_suffix.mpr (List.suffix_append _ _), by rw [List.length_append, hlength]; omega⟩

theorem ne_empty_of_isValidQueueId {id : String} (h : isValidQueueId id = true) : id ≠ "" := by
  rintro rfl
  exact absurd h (by decide)

/-- The file of a task. -/
def taskFile (taskId : String) : String := taskId ++ ".json"

theorem taskFile_injective : Function.Injective taskFile := by
  intro a b h
  have := congrArg String.toList h
  simp only [taskFile, String.toList_append] at this
  exact String.toList_inj.mp (List.append_cancel_right this)

theorem jsonStem_taskFile {id : String} (h : isValidQueueId id = true) : jsonStem (taskFile id) = some id :=
  jsonStem_eq_some.mpr ⟨rfl, ne_empty_of_isValidQueueId h⟩

/-! ### Directories -/

/-- What stands under a name. -/
inductive Entry where
  | file (raw : ByteArray)
  /-- A directory, and the names in it. -/
  | directory (names : List String)
  deriving DecidableEq

/-- A directory's entries, in the order of `read_dir`. -/
abbrev Listing := AList fun _ : String => Entry

/-- What stands under a name in `claimed/`. -/
inductive ClaimedEntry where
  | file (raw : ByteArray)
  | directory (listing : Listing)

/-- The directories of the queue, and that of the results. -/
structure QueueDirs where
  pending : Listing
  claimed : AList fun _ : String => ClaimedEntry
  done : Listing
  failed : Listing
  results : Listing

/-- `serde_json`, with the parser's message where it fails. -/
structure Readers where
  task : String → Except String PatrolTask
  result : String → Except String PatrolResult

/-- `read_json`. -/
def readJson {α : Type} (parse : String → Except String α) : Option Entry → Except MayorError α
  | none => .error notFound
  | some (.directory _) => .error (.io "Is a directory (os error 21)")
  | some (.file raw) =>
    match String.fromUTF8? raw with
    | none => .error (.io "stream did not contain valid UTF-8")
    | some text => (parse text).mapError .serde

/-- `sorted_json_filenames`. -/
def sortedJsonFilenames (listing : Listing) : List String :=
  (listing.keys.filter fun name => (jsonStem name).isSome).insertionSort (· ≤ ·)

theorem mem_sortedJsonFilenames {listing : Listing} {name : String} :
    name ∈ sortedJsonFilenames listing ↔ name ∈ listing.keys ∧ (jsonStem name).isSome := by
  rw [sortedJsonFilenames, List.mem_insertionSort, List.mem_filter]

/-- The first name is at most any other. -/
theorem le_of_head_sorted {listing : Listing} {first name : String}
    (hfirst : (sortedJsonFilenames listing).head? = some first)
    (hname : name ∈ sortedJsonFilenames listing) : first ≤ name := by
  have hsorted := List.pairwise_insertionSort (· ≤ ·) (listing.keys.filter fun name => (jsonStem name).isSome)
  change (sortedJsonFilenames listing).Pairwise (· ≤ ·) at hsorted
  rcases h : sortedJsonFilenames listing with _ | ⟨first', rest⟩
  · rw [h] at hfirst
    cases hfirst
  · rw [h] at hfirst hname hsorted
    obtain rfl := Option.some.inj hfirst
    rcases List.mem_cons.mp hname with rfl | hname
    · exact le_refl _
    · exact (List.pairwise_cons.mp hsorted).1 name hname

end Nerve.Queue
