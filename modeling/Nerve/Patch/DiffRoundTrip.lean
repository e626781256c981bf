import Nerve.Patch.RenderDiff
import Nerve.Patch.Effects

/-!
# Reading back what was written: the patch

A patch is written section by section, an empty line between two. The first pass of the reader finds
the entries with content: their headers, then the hunks up to the next header. The second finds the
renames without content, each in a block that goes on to the next `diff --git`; a section with
content behind one is taken for a part of its block, and the rename is lost. The headers hold the
paths as they are, and are read up to the first white space. `ReadsBack` says which patches escape
all this; `reads_back` says that these are read back as they were written.
-/

namespace Nerve.Patch

open Nerve.Text Nerve.LineDiff

/-! ### Which patches are read back -/

namespace FilePatch

/-- A rename that changes no content. -/
def isPureRename (f : FilePatch) : Bool :=
  match f.operation with
  | .rename _ => f.original == f.modified
  | _ => false

end FilePatch

/-- The path can stand in a header: it is one word. -/
def PathBuf.IsWord (p : PathBuf) : Prop := Text.IsWord p.text.toList

/-- The path is read as itself where no `a/` or `b/` stands before it. -/
structure PathBuf.IsPlain (p : PathBuf) : Prop where
  word : p.IsWord
  quote : p.text.toList.head? ≠ some '"'
  sides : stripPrefix "a/".toList p.text.toList = none ∧ stripPrefix "b/".toList p.text.toList = none

/-- What `to_unified_diff` writes of the patch is read back by `from_unified_diff`; `hunks` are
those of the two texts. -/
structure NvPatch.ReadsBack (hunks : (old new : String) → List (Hunk Line)) (p : NvPatch) : Prop where
  nonempty : p.files ≠ []
  /-- No content comes after a rename without. -/
  order : p.files.Pairwise fun f g => f.isPureRename = true → g.isPureRename = true
  words : ∀ f ∈ p.files, f.isPureRename = false → ∀ path ∈ f.changedPaths, path.IsWord
  plain : ∀ f ∈ p.files, f.isPureRename = true → ∀ path ∈ f.changedPaths, path.IsPlain
  /-- A file that is created starts from nothing. -/
  fresh : ∀ f ∈ p.files, f.operation = .create → f.original = ""
  /-- No rename with content leads to its own source in another spelling, as from `f` to `f/`. -/
  leaves : ∀ f ∈ p.files, f.isPureRename = false → ∀ origin, f.operation = .rename origin →
    origin.components ≠ f.path.components
  readable : ∀ f ∈ p.files, f.isPureRename = false → ∀ h ∈ hunks f.original f.modified, Readable h

/-! ### Headers of files -/

section Headers

/-- What begins otherwise is no header. -/
theorem stripPrefix_trimLineEnd {p : List Char} {line : Line} (hp : p ≠ []) (h : line.head? ≠ p.head?) :
    stripPrefix p (trimLineEnd line) = none := by
  obtain ⟨rest, hrest⟩ : ∃ rest, line = trimLineEnd line ++ rest := by
    refine ⟨(line.reverse.takeWhile fun c => c == '\r' || c == '\n').reverse, ?_⟩
    rw [trimLineEnd, ← List.reverse_append, List.takeWhile_append_dropWhile, List.reverse_reverse]
  rw [stripPrefix, if_neg]
  intro hprefix
  obtain ⟨rest', hrest'⟩ := List.isPrefixOf_iff_prefix.mp hprefix
  rw [← hrest', List.append_assoc] at hrest
  exact h (by rw [hrest, List.head?_append_of_ne_nil p hp])

theorem parseFileHeader_eq_none {line : Line} {start : String} (hstart : start.toList ≠ [])
    (h : line.head? ≠ start.toList.head?) : parseFileHeader line start = none := by
  rw [parseFileHeader, stripPrefix_trimLineEnd hstart h, Option.bind_none]

theorem parseHunkHeader_eq_none {line : Line} (h : line.head? ≠ some '@') : parseHunkHeader line = none := by
  rw [parseHunkHeader, stripPrefix_trimLineEnd (by decide) h, Option.bind_none]

/-- What begins otherwise begins no block. -/
theorem startsBlock_eq_false {line : Line} (h : line.head? ≠ some 'd') : startsBlock line = false := by
  rw [startsBlock, Bool.eq_false_iff]
  intro hprefix
  obtain ⟨rest, rfl⟩ := List.isPrefixOf_iff_prefix.mp hprefix
  exact h (by simp)

/-- A word behind its beginning, up to the end of the line. -/
theorem trimLineEnd_word (start : List Char) {word : List Char} (h : Text.IsWord word) :
    trimLineEnd (start ++ word ++ ['\n']) = start ++ word := by
  refine trimLineEnd_concat fun c hc => ?_
  rw [List.getLast?_append_of_ne_nil _ h.1] at hc
  have hspace := h.2 c (List.mem_of_getLast? hc)
  constructor <;> rintro rfl <;> cases hspace

theorem parseDiffPathToken_word {word : List Char} (h : Text.IsWord word) (hquote : word.head? ≠ some '"') :
    parseDiffPathToken word = some word := by
  unfold parseDiffPathToken
  split
  · exact absurd rfl hquote
  · rw [h.splitWhitespace, List.head?_cons]

/-- A path as it stands in a header, if there is one. -/
def headerPath (side : Char) (path : Option PathBuf) : List Char :=
  path.elim "/dev/null".toList fun path => side :: '/' :: path.text.toList

theorem isWord_headerPath {side : Char} (hside : isWhitespace side = false) {path : Option PathBuf}
    (h : ∀ p ∈ path, p.IsWord) : Text.IsWord (headerPath side path) := by
  cases path with
  | none => exact Text.isWord_of_all (s := "/dev/null".toList) (by decide)
  | some p =>
    refine ⟨List.cons_ne_nil _ _, fun c hc => ?_⟩
    rcases List.mem_cons.mp hc with rfl | hc
    · exact hside
    · rcases List.mem_cons.mp hc with rfl | hc
      · rfl
      · exact (h p rfl).2 c hc

theorem normalizeDiffPath_headerPath {side : Char} (hside : side = 'a' ∨ side = 'b') {path : Option PathBuf}
    (h : ∀ p ∈ path, p.IsWord) : normalizeDiffPath (headerPath side path) = .ok path := by
  cases path with
  | none => rfl
  | some p =>
    have hne := (h p rfl).1
    have hempty : p.text.toList.isEmpty = false := List.isEmpty_eq_false_iff.mpr hne
    have hnull : headerPath side (some p) ≠ "/dev/null".toList := by
      rcases hside with rfl | rfl <;> simp [headerPath]
    have hstripped : (stripPrefix "a/".toList (headerPath side (some p)) <|>
        stripPrefix "b/".toList (headerPath side (some p))).getD (headerPath side (some p)) = p.text.toList := by
      rcases hside with rfl | rfl
      · rw [show headerPath 'a' (some p) = "a/".toList ++ p.text.toList from rfl, stripPrefix_append]
        rfl
      · rw [show headerPath 'b' (some p) = "b/".toList ++ p.text.toList from rfl, stripPrefix_append,
          stripPrefix_eq_none (by decide) (by simp)]
        rfl
    rw [normalizeDiffPath, if_neg hnull]
    simp only [hstripped, hempty, Bool.false_eq_true, if_false, String.ofList_toList]

/-- **The header of a file is read back**, when its path is a word. -/
theorem parseFileHeader_render (start : String) {side : Char} (hside : side = 'a' ∨ side = 'b') {path : Option PathBuf}
    (h : ∀ p ∈ path, p.IsWord) : parseFileHeader (start.toList ++ headerPath side path ++ ['\n']) start = some path := by
  have hword : Text.IsWord (headerPath side path) :=
    isWord_headerPath (by rcases hside with rfl | rfl <;> decide) h
  have hquote : (headerPath side path).head? ≠ some '"' := by
    cases path <;> rcases hside with rfl | rfl <;> simp [headerPath]
  rw [parseFileHeader, trimLineEnd_word _ hword, stripPrefix_append, Option.bind_some, hword.trimStart,
    parseDiffPathToken_word hword hquote, Option.bind_some, normalizeDiffPath_headerPath hside h]
  rfl

end Headers

/-! ### The hunks of a section -/

/-- A line that neither the sections nor their hunks begin with. -/
def Skipped (line : Line) : Prop := line.head? ≠ some '-' ∧ line.head? ≠ some '@'

section Hunks

variable {acc : List ParsedHunk} {fuel : Nat}

/-- The lines between the hunks and the next section. -/
theorem parseHunks_skipped {skipped rest : List Line} (hskipped : ∀ line ∈ skipped, Skipped line)
    (hrest : ∀ line ∈ rest.head?, (parseFileHeader line "--- ").isSome = true) (hfuel : (skipped ++ rest).length ≤ fuel) :
    parseHunks fuel acc (skipped ++ rest) = .ok (acc, rest) := by
  induction skipped generalizing fuel with
  | nil =>
    rw [List.nil_append]
    cases fuel with
    | zero => rfl
    | succ fuel =>
      cases rest with
      | nil => rfl
      | cons line rest => rw [parseHunks, if_pos (hrest line rfl)]
  | cons line skipped ih =>
    obtain ⟨hline, hskipped⟩ := List.forall_mem_cons.mp hskipped
    obtain ⟨fuel, rfl⟩ : ∃ n, fuel = n + 1 := ⟨fuel - 1, by simp at hfuel; omega⟩
    rw [List.cons_append, parseHunks, parseFileHeader_eq_none (by decide) hline.1, if_neg (by simp),
      parseHunkHeader_eq_none hline.2]
    exact ih hskipped (by simpa using hfuel)

/-- What is left of a hunk is passed over. -/
theorem parseHunks_unread (lines : List (HunkLine Line)) {rest : List Line}
    (hfuel : (unread lines ++ rest).length ≤ fuel) :
    ∃ fuel', rest.length ≤ fuel' ∧ parseHunks fuel acc (unread lines ++ rest) = parseHunks fuel' acc rest := by
  have hskip {line : Line} (hline : Skipped line) (fuel : Nat) :
      parseHunks (fuel + 1) acc (line :: rest) = parseHunks fuel acc rest := by
    rw [parseHunks, parseFileHeader_eq_none (by decide) hline.1, if_neg (by simp), parseHunkHeader_eq_none hline.2]
  induction lines with
  | nil => exact ⟨fuel, hfuel, rfl⟩
  | cons l lines ih =>
    rcases lines with _ | ⟨l', lines⟩
    · rw [unread] at hfuel ⊢
      split_ifs at hfuel ⊢ with hl
      · exact ⟨fuel, hfuel, rfl⟩
      · rw [List.singleton_append, List.length_cons] at hfuel
        obtain ⟨fuel, rfl⟩ : ∃ n, fuel = n + 1 := ⟨fuel - 1, by omega⟩
        exact ⟨fuel, by omega, hskip (by simp [Skipped, noNewlineMarker]) fuel⟩
    · exact ih hfuel

/-- **The hunks of a section are read as they can be**, up to the next section. -/
theorem parseHunks_render {hunks : List (Hunk Line)} {skipped rest : List Line}
    (hbounds : ∀ h ∈ hunks, h.oldIndex + (olds h.lines).length < 2 ^ 64 ∧ h.newIndex + (news h.lines).length < 2 ^ 64)
    (hskipped : ∀ line ∈ skipped, Skipped line)
    (hrest : ∀ line ∈ rest.head?, (parseFileHeader line "--- ").isSome = true)
    (hfuel : (hunks.flatMap renderHunk ++ (skipped ++ rest)).length ≤ fuel) :
    parseHunks fuel acc (hunks.flatMap renderHunk ++ (skipped ++ rest)) =
      .ok (acc ++ hunks.map fun h => parsedHunk (asRead h), rest) := by
  induction hunks generalizing fuel acc with
  | nil =>
    rw [List.flatMap_nil, List.nil_append, List.map_nil, List.append_nil]
    exact parseHunks_skipped hskipped hrest hfuel
  | cons h hunks ih =>
    obtain ⟨⟨hold, hnew⟩, hbounds⟩ := List.forall_mem_cons.mp hbounds
    have hlines := @parseHunkLines_render (olds h.lines).length (news h.lines).length [] h.lines
      (hunks.flatMap renderHunk ++ (skipped ++ rest)) 0 0 (Nat.zero_add _) (Nat.zero_add _)
    have hlength : (h.lines.flatMap renderLine ++ (hunks.flatMap renderHunk ++ (skipped ++ rest))).length + 1 ≤ fuel := by
      simp only [List.flatMap_cons, renderHunk, List.length_append, List.length_cons] at hfuel ⊢
      omega
    obtain ⟨fuel, rfl⟩ : ∃ n, fuel = n + 1 := ⟨fuel - 1, by omega⟩
    rw [List.flatMap_cons, renderHunk, List.append_assoc, List.cons_append, parseHunks,
      parseFileHeader_eq_none (by decide) (by simp [renderHeader]), if_neg (by simp), parseHunkHeader_render hold hnew]
    simp only [hlines, List.nil_append]
    have hunread : (unread h.lines ++ (hunks.flatMap renderHunk ++ (skipped ++ rest))).length ≤ fuel := by
      have := @length_unread_le h.lines
      rw [List.length_append] at hlength ⊢
      omega
    obtain ⟨fuel', hfuel', hparsed⟩ := @parseHunks_unread
      (acc ++ [⟨printedStart h.oldIndex (olds h.lines).length, (olds h.lines).length, (news h.lines).length,
        readLines h.lines⟩]) fuel h.lines _ hunread
    rw [hparsed, ih hbounds hfuel', List.map_cons, List.append_assoc, parsedHunk, asRead, length_readLines.1,
      length_readLines.2]
    rfl

end Hunks

/-! ### The lines of a section -/

theorem newline_not_mem_headerPath {side : Char} (hside : side = 'a' ∨ side = 'b') {path : Option PathBuf}
    (h : ∀ p ∈ path, p.IsWord) : '\n' ∉ headerPath side path := fun hmem => by
  have := (isWord_headerPath (by rcases hside with rfl | rfl <;> decide) h).2 '\n' hmem
  cases this

section RenderDiff

variable {textDiff : TextDiff} {old new : String} {hunks : List (Hunk Line)}

/-- The numbers in the headers of the hunks can be read. -/
theorem CorrectDiff.bounds (h : CorrectDiff textDiff old new hunks)
    (hlengths : old.length < 2 ^ 63 ∧ new.length < 2 ^ 63) : ∀ hunk ∈ hunks,
      hunk.oldIndex + (olds hunk.lines).length < 2 ^ 64 ∧ hunk.newIndex + (news hunk.lines).length < 2 ^ 64 := by
  intro hunk hhunk
  obtain ⟨hold, hnew⟩ := h.diffs.bounds hunk hhunk
  have hlength (s : String) : (splitLinesPreservingEndings s).length ≤ s.length := by
    rw [← String.length_toList]
    exact length_splitInclusive_le _ _
  have := hlength old
  have := hlength new
  omega

/-- Every line ends where the next begins. -/
theorem CorrectDiff.isLine (h : CorrectDiff textDiff old new hunks) {oldPath newPath : List Char}
    (hold : '\n' ∉ oldPath) (hnew : '\n' ∉ newPath) : ∀ line ∈ renderDiff oldPath newPath hunks, IsLine '\n' line := by
  intro line hline
  rcases List.mem_cons.mp hline with rfl | hline
  · exact ⟨"--- ".toList ++ oldPath, by simp [hold], rfl⟩
  rcases List.mem_cons.mp hline with rfl | hline
  · exact ⟨"+++ ".toList ++ newPath, by simp [hnew], rfl⟩
  obtain ⟨hunk, hhunk, hline⟩ := List.mem_flatMap.mp hline
  rcases List.mem_cons.mp hline with rfl | hline
  · exact isLine_renderHeader hunk
  obtain ⟨l, hl, hline⟩ := List.mem_flatMap.mp hline
  refine isLine_renderLine ?_ line hline
  rcases h.diffs.line_mem hunk hhunk l hl with hl | hl
  · exact isLine_or_isOpenLine hl
  · exact isLine_or_isOpenLine hl

/-- No line of it begins a block. -/
theorem not_startsBlock_renderDiff {oldPath newPath : List Char} :
    ∀ line ∈ renderDiff oldPath newPath hunks, startsBlock line = false := by
  intro line hline
  refine startsBlock_eq_false ?_
  rcases List.mem_cons.mp hline with rfl | hline
  · simp
  rcases List.mem_cons.mp hline with rfl | hline
  · simp
  obtain ⟨h, -, hline⟩ := List.mem_flatMap.mp hline
  rcases List.mem_cons.mp hline with rfl | hline
  · simp [renderHeader]
  obtain ⟨l, -, hline⟩ := List.mem_flatMap.mp hline
  have htag : tag l ≠ 'd' := by cases l <;> simp [tag]
  unfold renderLine at hline
  split_ifs at hline
  · rw [List.mem_singleton.mp hline]
    simpa using htag
  · rcases List.mem_cons.mp hline with rfl | hline
    · simpa using htag
    · rw [List.mem_singleton.mp hline]
      simp [noNewlineMarker]

/-- One section is read, up to the next. -/
theorem parseSections_renderDiff {oldPath newPath : Option PathBuf} (hold : ∀ p ∈ oldPath, p.IsWord)
    (hnew : ∀ p ∈ newPath, p.IsWord)
    (hbounds : ∀ h ∈ hunks, h.oldIndex + (olds h.lines).length < 2 ^ 64 ∧ h.newIndex + (news h.lines).length < 2 ^ 64)
    {skipped rest : List Line} (hskipped : ∀ line ∈ skipped, Skipped line)
    (hrest : ∀ line ∈ rest.head?, (parseFileHeader line "--- ").isSome = true) {fuel : Nat}
    {files : List ParsedFileDiff} (hfiles : parseSections fuel rest = .ok files) :
    parseSections (fuel + 1)
        (renderDiff (headerPath 'a' oldPath) (headerPath 'b' newPath) hunks ++ (skipped ++ rest)) =
      .ok (if hunks = [] then files
        else ⟨oldPath, newPath, none, none, hunks.map fun h => parsedHunk (asRead h)⟩ :: files) := by
  have hhunks := @parseHunks_render [] _ _ _ _ hbounds hskipped hrest le_rfl
  rw [renderDiff, List.cons_append, List.cons_append, parseSections, parseFileHeader_render "--- " (Or.inl rfl) hold]
  simp only [parseFileHeader_render "+++ " (Or.inr rfl) hnew, hhunks, hfiles, List.nil_append, List.isEmpty_iff,
    List.map_eq_nil_iff]

end RenderDiff

/-! ### The sections of a patch -/

namespace FilePatch

/-- The file an entry begins with, if there is one. -/
def oldPath (f : FilePatch) : Option PathBuf :=
  match f.operation with
  | .create => none
  | .rename origin => some origin
  | .modify | .delete => some f.path

/-- The file it ends with. -/
def newPath (f : FilePatch) : Option PathBuf :=
  match f.operation with
  | .delete => none
  | .modify | .create | .rename _ => some f.path

theorem oldPath_mem {f : FilePatch} : ∀ p ∈ f.oldPath, p ∈ f.changedPaths := by
  intro p hp
  unfold oldPath at hp
  unfold changedPaths
  split at hp <;> simp_all

theorem newPath_mem {f : FilePatch} : ∀ p ∈ f.newPath, p ∈ f.changedPaths := by
  intro p hp
  unfold newPath at hp
  unfold changedPaths
  split at hp <;> simp_all

variable (hunks : (old new : String) → List (Hunk Line)) (f : FilePatch)

/-- The section of an entry with content. -/
def contentLines : List Line :=
  renderDiff (headerPath 'a' f.oldPath) (headerPath 'b' f.newPath) (hunks f.original f.modified)

/-- The block of a rename without content. -/
def renameLines (origin path : PathBuf) : List Line :=
  ["diff --git ".toList ++ ("a/".toList ++ origin.text.toList ++ " b/".toList ++ path.text.toList ++ ['\n']),
    "similarity index 100%".toList ++ ['\n'], "rename from ".toList ++ origin.text.toList ++ ['\n'],
    "rename to ".toList ++ path.text.toList ++ ['\n']]

def sectionLines : List Line :=
  if f.isPureRename then renameLines (f.validationPath false) f.path else f.contentLines hunks

/-- The entry as it is read. -/
def parsedFile : ParsedFileDiff :=
  if f.isPureRename then ⟨none, none, some (f.validationPath false), some f.path, []⟩
  else ⟨f.oldPath, f.newPath, none, none, (hunks f.original f.modified).map parsedHunk⟩

end FilePatch

/-- The lines of a patch, with an empty line before every section. -/
def sections (hunks : (old new : String) → List (Hunk Line)) (fs : List FilePatch) : List Line :=
  fs.flatMap fun f => ['\n'] :: f.sectionLines hunks

/-! ### The entries with content -/

/-- An entry with content that is read back. -/
structure FilePatch.Content (textDiff : TextDiff) (hunks : (old new : String) → List (Hunk Line)) (f : FilePatch) :
    Prop where
  notRename : f.isPureRename = false
  words : ∀ path ∈ f.changedPaths, path.IsWord
  differs : f.original ≠ f.modified
  diff : CorrectDiff textDiff f.original f.modified (hunks f.original f.modified)
  readable : ∀ h ∈ hunks f.original f.modified, Readable h
  lengths : f.original.length < 2 ^ 63 ∧ f.modified.length < 2 ^ 63

namespace FilePatch.Content

variable {textDiff : TextDiff} {hunks : (old new : String) → List (Hunk Line)} {f : FilePatch}

/-- Texts that differ have a hunk. -/
theorem hunks_ne_nil (hf : f.Content textDiff hunks) : hunks f.original f.modified ≠ [] := by
  intro hnil
  have hlines := hf.diff.diffs
  rw [hnil] at hlines
  have htexts := congrArg List.flatten hlines.eq_of_nil
  rw [splitLinesPreservingEndings, splitLinesPreservingEndings, flatten_splitInclusive, flatten_splitInclusive] at htexts
  exact hf.differs (String.toList_inj.mp htexts)

/-- The hunks are read as they are. -/
theorem map_asRead (hf : f.Content textDiff hunks) :
    (hunks f.original f.modified).map (fun h => parsedHunk (asRead h)) = (hunks f.original f.modified).map parsedHunk :=
  List.map_congr_left fun h hh => by rw [(hf.readable h hh).asRead]

/-- Every line of the section ends where the next begins. -/
theorem isLine (hf : f.Content textDiff hunks) : ∀ line ∈ f.contentLines hunks, IsLine '\n' line :=
  hf.diff.isLine (newline_not_mem_headerPath (Or.inl rfl) fun p hp => hf.words p (oldPath_mem p hp))
    (newline_not_mem_headerPath (Or.inr rfl) fun p hp => hf.words p (newPath_mem p hp))

end FilePatch.Content

section Sections

variable {textDiff : TextDiff} {hunks : (old new : String) → List (Hunk Line)} {fuel : Nat}

theorem parseSections_skipped {skipped : List Line} (hskipped : ∀ line ∈ skipped, Skipped line) :
    parseSections fuel skipped = .ok [] := by
  induction skipped generalizing fuel with
  | nil => cases fuel <;> rfl
  | cons line skipped ih =>
    obtain ⟨hline, hskipped⟩ := List.forall_mem_cons.mp hskipped
    cases fuel with
    | zero => rfl
    | succ fuel =>
      rw [parseSections, parseFileHeader_eq_none (by decide) hline.1]
      exact ih hskipped

/-- The section of an entry is read, up to the next. -/
theorem parseSections_content {f : FilePatch} (hf : f.Content textDiff hunks) {skipped rest : List Line}
    (hskipped : ∀ line ∈ skipped, Skipped line)
    (hrest : ∀ line ∈ rest.head?, (parseFileHeader line "--- ").isSome = true) {files : List ParsedFileDiff}
    (hfiles : parseSections fuel rest = .ok files) :
    parseSections (fuel + 1) (f.contentLines hunks ++ (skipped ++ rest)) = .ok (f.parsedFile hunks :: files) := by
  rw [FilePatch.contentLines, parseSections_renderDiff (fun p hp => hf.words p (FilePatch.oldPath_mem p hp))
    (fun p hp => hf.words p (FilePatch.newPath_mem p hp)) (hf.diff.bounds hf.lengths) hskipped hrest hfiles,
    if_neg hf.hunks_ne_nil, hf.map_asRead, FilePatch.parsedFile,
    if_neg (by rw [hf.notRename]; exact Bool.false_ne_true)]

theorem sectionLines_content {f : FilePatch} (hf : f.Content textDiff hunks) :
    f.sectionLines hunks = f.contentLines hunks := by
  rw [FilePatch.sectionLines, if_neg (by rw [hf.notRename]; exact Bool.false_ne_true)]

/-- **The entries with content are read back**, in their order. -/
theorem parseSections_render {f : FilePatch} {fs : List FilePatch} (hfs : ∀ g ∈ f :: fs, g.Content textDiff hunks)
    {skipped : List Line} (hskipped : ∀ line ∈ skipped, Skipped line)
    (hfuel : (f.contentLines hunks ++ (sections hunks fs ++ skipped)).length ≤ fuel) :
    parseSections fuel (f.contentLines hunks ++ (sections hunks fs ++ skipped)) =
      .ok ((f :: fs).map (FilePatch.parsedFile hunks)) := by
  induction fs generalizing f fuel with
  | nil =>
    obtain ⟨fuel, rfl⟩ : ∃ n, fuel = n + 1 := ⟨fuel - 1, by
      simp only [FilePatch.contentLines, renderDiff, List.length_append, List.length_cons] at hfuel
      omega⟩
    have hread := @parseSections_content textDiff hunks fuel f (hfs f List.mem_cons_self) skipped [] hskipped
      (by simp) [] (parseSections_skipped (by simp))
    rw [List.append_nil] at hread
    exact hread
  | cons g fs ih =>
    obtain ⟨hf, hgs⟩ := List.forall_mem_cons.mp hfs
    have hg := hgs g List.mem_cons_self
    have hsections : sections hunks (g :: fs) ++ skipped =
        [['\n']] ++ (g.contentLines hunks ++ (sections hunks fs ++ skipped)) := by
      rw [sections, List.flatMap_cons, sectionLines_content hg, List.append_assoc]
      rfl
    rw [hsections] at hfuel ⊢
    obtain ⟨fuel, rfl⟩ : ∃ n, fuel = n + 1 := ⟨fuel - 1, by simp at hfuel; omega⟩
    have hrest : parseSections fuel (g.contentLines hunks ++ (sections hunks fs ++ skipped)) =
        .ok ((g :: fs).map (FilePatch.parsedFile hunks)) := ih hgs (by simp at hfuel ⊢; omega)
    refine parseSections_content hf (by simp [Skipped]) ?_ hrest
    -- the next section begins with its header
    intro line hline
    obtain rfl : line = "--- ".toList ++ headerPath 'a' g.oldPath ++ ['\n'] := by
      simpa [FilePatch.contentLines, renderDiff] using hline.symm
    rw [parseFileHeader_render "--- " (Or.inl rfl) fun p hp => hg.words p (FilePatch.oldPath_mem p hp)]
    rfl

end Sections

/-! ### The renames without content -/

/-- A rename without content that is read back. -/
structure FilePatch.PlainRename (f : FilePatch) : Prop where
  rename : f.isPureRename = true
  plain : ∀ path ∈ f.changedPaths, path.IsPlain
  notNull : ∀ path ∈ f.changedPaths, path.text ≠ "/dev/null"

section Renames

variable {origin path : PathBuf}

theorem parsePlainPath (hplain : path.IsPlain) (hnull : path.text ≠ "/dev/null") :
    parseDiffPathToken (trimStart path.text.toList) = some path.text.toList ∧
      normalizeDiffPath path.text.toList = .ok (some path) := by
  have hword : Text.IsWord path.text.toList := hplain.word
  have hempty : path.text.toList.isEmpty = false := List.isEmpty_eq_false_iff.mpr hword.1
  constructor
  · rw [hword.trimStart, parseDiffPathToken_word hword hplain.quote]
  · have hnone : ((none : Option (List Char)) <|> none).getD path.text.toList = path.text.toList := rfl
    rw [normalizeDiffPath, if_neg fun h => hnull (String.toList_inj.mp h), hplain.sides.1, hplain.sides.2]
    simp only [hnone, hempty, Bool.false_eq_true, if_false, String.ofList_toList]

theorem skipped_renameLines : ∀ line ∈ FilePatch.renameLines origin path, Skipped line := by
  simp [FilePatch.renameLines, Skipped]

/-- The two lines of the block that name the paths are found. -/
theorem findLine_renameLines
    (horigin : ∀ start, trimLineEnd (start ++ origin.text.toList ++ ['\n']) = start ++ origin.text.toList)
    (hpath : ∀ start, trimLineEnd (start ++ path.text.toList ++ ['\n']) = start ++ path.text.toList) (rest : List Line) :
    findLine (FilePatch.renameLines origin path ++ rest) "rename from " = some origin.text.toList ∧
      findLine (FilePatch.renameLines origin path ++ rest) "rename to " = some path.text.toList := by
  have hdiff (start : String) (hstart : start.toList.head? = some 'r') (line : Line) :
      stripPrefix start.toList (trimLineEnd ("diff --git ".toList ++ line)) = none :=
    stripPrefix_trimLineEnd (by rintro h; simp [h] at hstart) (by rw [hstart]; simp)
  have hsimilarity (start : String) (hstart : start.toList.head? = some 'r') :
      stripPrefix start.toList (trimLineEnd ("similarity index 100%".toList ++ ['\n'])) = none :=
    stripPrefix_trimLineEnd (by rintro h; simp [h] at hstart) (by rw [hstart]; simp)
  have hto : stripPrefix "rename to ".toList ("rename from ".toList ++ origin.text.toList) = none := by
    rw [stripPrefix, if_neg]
    simp
  unfold findLine FilePatch.renameLines
  constructor
  · simp only [List.cons_append, List.findSome?_cons, hdiff "rename from " rfl, hsimilarity "rename from " rfl,
      horigin, stripPrefix_append]
  · simp only [List.cons_append, List.findSome?_cons, hdiff "rename to " rfl, hsimilarity "rename to " rfl,
      horigin, hpath, hto, stripPrefix_append]

/-- A block says its rename. -/
theorem parseBlock_render (horigin : origin.IsPlain) (hpath : path.IsPlain) (hnull : origin.text ≠ "/dev/null")
    (hnull' : path.text ≠ "/dev/null") {rest : List Line} (hrest : ∀ line ∈ rest, Skipped line) :
    parseBlock (FilePatch.renameLines origin path ++ rest) = .ok [⟨none, none, some origin, some path, []⟩] := by
  have hheader : (FilePatch.renameLines origin path ++ rest).any
      (fun line => (parseFileHeader line "--- ").isSome) = false := by
    rw [List.any_eq_false]
    intro line hline
    have hskipped : Skipped line := (List.mem_append.mp hline).elim (skipped_renameLines line) (hrest line)
    rw [parseFileHeader_eq_none (by decide) hskipped.1]
    exact Bool.false_ne_true
  obtain ⟨hfrom, hto⟩ := findLine_renameLines (fun _ => trimLineEnd_word _ horigin.word)
    (fun _ => trimLineEnd_word _ hpath.word) rest
  obtain ⟨htoken, hnormal⟩ := parsePlainPath horigin hnull
  obtain ⟨htoken', hnormal'⟩ := parsePlainPath hpath hnull'
  rw [parseBlock, hheader, if_neg Bool.false_ne_true, parseRenamePath, parseRenamePath, hfrom, hto]
  simp only [htoken, htoken', hnormal, hnormal']
  rfl

/-- Lines before the first block. -/
theorem parsePureRenameDiffs_skip {lines rest : List Line} (hlines : ∀ line ∈ lines, startsBlock line = false) :
    parsePureRenameDiffs (lines ++ rest) = parsePureRenameDiffs rest := by
  induction lines with
  | nil => rfl
  | cons line lines ih =>
    obtain ⟨hline, hlines⟩ := List.forall_mem_cons.mp hlines
    rw [List.cons_append, parsePureRenameDiffs, hline, if_neg Bool.false_ne_true, ih hlines]

variable {hunks : (old new : String) → List (Hunk Line)}

theorem sections_cons (f : FilePatch) (fs : List FilePatch) :
    sections hunks (f :: fs) = ['\n'] :: (f.sectionLines hunks ++ sections hunks fs) := rfl

theorem sectionLines_rename {f : FilePatch} (hf : f.PlainRename) :
    f.sectionLines hunks = FilePatch.renameLines (f.validationPath false) f.path := by
  rw [FilePatch.sectionLines, if_pos hf.rename]

theorem changedPaths_of_isPureRename {f : FilePatch} (hf : f.isPureRename = true) :
    f.changedPaths = [f.validationPath false, f.path] := by
  unfold FilePatch.isPureRename at hf
  unfold FilePatch.changedPaths FilePatch.validationPath
  split at hf
  · rename_i hrename
    rw [hrename]
  · cases hf

theorem skipped_sections {fs : List FilePatch} (hfs : ∀ f ∈ fs, f.PlainRename) :
    ∀ line ∈ sections hunks fs, Skipped line := by
  intro line hline
  obtain ⟨f, hf, hline⟩ := List.mem_flatMap.mp hline
  rcases List.mem_cons.mp hline with rfl | hline
  · simp [Skipped]
  · rw [sectionLines_rename (hfs f hf)] at hline
    exact skipped_renameLines line hline

/-- **The renames without content are read back**, in their order. -/
theorem parsePureRenameDiffs_render {fs : List FilePatch} (hfs : ∀ f ∈ fs, f.PlainRename) :
    parsePureRenameDiffs (sections hunks fs) = .ok (fs.map (FilePatch.parsedFile hunks)) := by
  induction fs with
  | nil => rfl
  | cons f fs ih =>
    obtain ⟨hf, hfs'⟩ := List.forall_mem_cons.mp hfs
    have hplain := hf.plain
    have hnull := hf.notNull
    rw [changedPaths_of_isPureRename hf.rename] at hplain hnull
    -- the block has the lines of the rename, and the empty line before the next
    obtain ⟨second, third, fourth, hlines, hothers⟩ : ∃ second third fourth,
        FilePatch.renameLines (f.validationPath false) f.path =
          ("diff --git ".toList ++ ("a/".toList ++ (f.validationPath false).text.toList ++ " b/".toList ++
            f.path.text.toList ++ ['\n'])) :: [second, third, fourth] ∧
        ∀ line ∈ [second, third, fourth], startsBlock line = false := by
      refine ⟨_, _, _, rfl, ?_⟩
      intro line hline
      simp only [List.mem_cons, List.not_mem_nil, or_false] at hline
      rcases hline with rfl | rfl | rfl
      all_goals exact startsBlock_eq_false (by simp)
    have hrest : ∀ line ∈ (sections hunks fs).takeWhile (fun line => !startsBlock line), Skipped line :=
      fun line hline => skipped_sections hfs' line ((List.takeWhile_prefix _).mem hline)
    have hblock := parseBlock_render (hplain (f.validationPath false) (by simp)) (hplain f.path (by simp))
      (hnull _ (by simp)) (hnull _ (by simp)) hrest
    have hstarts (line : Line) : startsBlock ("diff --git ".toList ++ line) = true :=
      List.isPrefixOf_iff_prefix.mpr (List.prefix_append _ _)
    rw [sections_cons, sectionLines_rename hf, hlines, ← List.singleton_append,
      parsePureRenameDiffs_skip (by intro line hline; rw [List.mem_singleton.mp hline]; rfl), List.cons_append,
      parsePureRenameDiffs, if_pos (hstarts _),
      List.takeWhile_append_of_pos (fun line hline => by rw [hothers line hline]; rfl), ← List.cons_append,
      ← hlines, hblock, parsePureRenameDiffs_skip hothers, ih hfs']
    simp only
    rw [List.map_cons, FilePatch.parsedFile, if_pos hf.rename]
    rfl

end Renames

/-! ### The text -/

section Written

variable {textDiff : TextDiff} {hunks : (old new : String) → List (Hunk Line)}

theorem toUnifiedDiff_toList {f : FilePatch}
    (hdiff : f.isPureRename = false → CorrectDiff textDiff f.original f.modified (hunks f.original f.modified)) :
    (f.toUnifiedDiff textDiff).toList = (f.sectionLines hunks).flatten := by
  by_cases hrename : f.isPureRename = true
  · rw [FilePatch.sectionLines, if_pos hrename]
    unfold FilePatch.isPureRename at hrename
    split at hrename
    · rename_i origin ho
      rw [FilePatch.toUnifiedDiff, ho]
      have hself (s : String) : toString s = s := rfl
      simp only [if_pos (beq_iff_eq.mp hrename), FilePatch.validationPath, ho, hself]
      simp [FilePatch.renameLines]
    · cases hrename
  · rw [Bool.not_eq_true] at hrename
    have htext := (hdiff hrename).text
    rw [FilePatch.sectionLines, if_neg (by rw [hrename]; exact Bool.false_ne_true), FilePatch.contentLines]
    rcases ho : f.operation with _ | _ | _ | origin
    · simp [FilePatch.toUnifiedDiff, FilePatch.oldPath, FilePatch.newPath, headerPath, ho, htext]
    · simp [FilePatch.toUnifiedDiff, FilePatch.oldPath, FilePatch.newPath, headerPath, ho, htext]
    · simp [FilePatch.toUnifiedDiff, FilePatch.oldPath, FilePatch.newPath, headerPath, ho, htext]
    · have hne : f.original ≠ f.modified := by
        intro heq
        simp [FilePatch.isPureRename, ho, heq] at hrename
      simp [FilePatch.toUnifiedDiff, FilePatch.oldPath, FilePatch.newPath, headerPath, ho, htext, hne]

theorem flatten_sectionLines_ne_nil (f : FilePatch) : (f.sectionLines hunks).flatten ≠ [] := by
  unfold FilePatch.sectionLines
  split_ifs
  · simp [FilePatch.renameLines]
  · simp [FilePatch.contentLines, renderDiff]

/-- The sections one after another are the text of the patch. -/
theorem patch_toUnifiedDiff_toList {p : NvPatch} (hnoop : ∀ f ∈ p.files, f.isNoop = false)
    (hdiff : ∀ f ∈ p.files, f.isPureRename = false →
      CorrectDiff textDiff f.original f.modified (hunks f.original f.modified)) :
    (p.toUnifiedDiff textDiff).toList = (sections hunks p.files).tail.flatten := by
  have hfold (fs : List FilePatch) (out : String) (hout : out ≠ "") (hnoop : ∀ f ∈ fs, f.isNoop = false)
      (hdiff : ∀ f ∈ fs, f.isPureRename = false →
        CorrectDiff textDiff f.original f.modified (hunks f.original f.modified)) :
      (fs.foldl (fun out f => if f.isNoop then out else if out.isEmpty then f.toUnifiedDiff textDiff
        else out ++ "\n" ++ f.toUnifiedDiff textDiff) out).toList = out.toList ++ (sections hunks fs).flatten := by
    induction fs generalizing out with
    | nil => simp [sections]
    | cons f fs ih =>
      obtain ⟨hf, hnoop⟩ := List.forall_mem_cons.mp hnoop
      obtain ⟨hd, hdiff⟩ := List.forall_mem_cons.mp hdiff
      have hempty : out.isEmpty = false := by simpa using hout
      rw [List.foldl_cons, hf, if_neg Bool.false_ne_true, hempty, if_neg Bool.false_ne_true,
        ih _ (by simp) hnoop hdiff, sections_cons]
      simp [toUnifiedDiff_toList hd]
  rw [NvPatch.toUnifiedDiff]
  rcases hfiles : p.files with _ | ⟨f, fs⟩
  · rfl
  · rw [hfiles] at hnoop hdiff
    obtain ⟨hf, hnoop⟩ := List.forall_mem_cons.mp hnoop
    obtain ⟨hd, hdiff⟩ := List.forall_mem_cons.mp hdiff
    have hne : f.toUnifiedDiff textDiff ≠ "" := by
      intro hempty
      have htext := toUnifiedDiff_toList hd
      rw [hempty] at htext
      exact flatten_sectionLines_ne_nil f htext.symm
    rw [List.foldl_cons, hf, if_neg Bool.false_ne_true, if_pos (by rfl), hfold fs _ hne hnoop hdiff,
      toUnifiedDiff_toList hd, sections_cons, List.tail_cons, List.flatten_append]

theorem isLine_renameLines {origin path : PathBuf} (horigin : '\n' ∉ origin.text.toList)
    (hpath : '\n' ∉ path.text.toList) : ∀ line ∈ FilePatch.renameLines origin path, IsLine '\n' line := by
  intro line hline
  simp only [FilePatch.renameLines, List.mem_cons, List.not_mem_nil, or_false] at hline
  rcases hline with rfl | rfl | rfl | rfl
  · exact ⟨"diff --git ".toList ++ ("a/".toList ++ origin.text.toList ++ " b/".toList ++ path.text.toList),
      by simp [horigin, hpath], by simp⟩
  · exact ⟨"similarity index 100%".toList, by decide, rfl⟩
  · exact ⟨"rename from ".toList ++ origin.text.toList, by simp [horigin], rfl⟩
  · exact ⟨"rename to ".toList ++ path.text.toList, by simp [hpath], rfl⟩

theorem PathBuf.IsWord.newline_not_mem {p : PathBuf} (hp : p.IsWord) : '\n' ∉ p.text.toList := fun h => by
  have := hp.2 '\n' h
  cases this

/-- An entry that is read back: with content, or a rename without. -/
def FilePatch.IsRead (textDiff : TextDiff) (hunks : (old new : String) → List (Hunk Line)) (f : FilePatch) : Prop :=
  f.Content textDiff hunks ∨ f.PlainRename

theorem isLine_sections {fs : List FilePatch} (hfs : ∀ f ∈ fs, f.IsRead textDiff hunks) :
    ∀ line ∈ sections hunks fs, IsLine '\n' line := by
  intro line hline
  obtain ⟨f, hf, hline⟩ := List.mem_flatMap.mp hline
  rcases List.mem_cons.mp hline with rfl | hline
  · exact ⟨[], List.not_mem_nil, rfl⟩
  rcases hfs f hf with hcontent | hrename
  · rw [sectionLines_content hcontent] at hline
    exact hcontent.isLine line hline
  · have hplain := hrename.plain
    rw [changedPaths_of_isPureRename hrename.rename] at hplain
    rw [sectionLines_rename hrename] at hline
    exact isLine_renameLines (hplain (f.validationPath false) (by simp)).word.newline_not_mem
      (hplain f.path (by simp)).word.newline_not_mem line hline

/-- **The sections of a patch are read back**, the entries with content first. -/
theorem parseFileDiffs_render {contents renames : List FilePatch} (hcontents : ∀ f ∈ contents, f.Content textDiff hunks)
    (hrenames : ∀ f ∈ renames, f.PlainRename) {diff : String}
    (hdiff : diff.toList = (sections hunks (contents ++ renames)).tail.flatten) :
    parseFileDiffs diff = .ok ((contents ++ renames).map (FilePatch.parsedFile hunks)) := by
  have hlines : splitInclusive '\n' diff.toList = (sections hunks (contents ++ renames)).tail := by
    rw [hdiff]
    refine splitInclusive_flatten fun line hline => ?_
    have hread : ∀ f ∈ contents ++ renames, f.IsRead textDiff hunks :=
      fun f hf => (List.mem_append.mp hf).imp (hcontents f) (hrenames f)
    exact isLine_sections hread line (List.mem_of_mem_tail hline)
  -- behind the empty line at the beginning, the two passes read the same
  have hrename := @parsePureRenameDiffs_render hunks renames hrenames
  rw [parseFileDiffs]
  simp only [hlines]
  rcases contents with _ | ⟨c, contents⟩
  · have hskip : parseSections (sections hunks renames).tail.length (sections hunks renames).tail = .ok [] :=
      parseSections_skipped fun line hline => skipped_sections hrenames line (List.mem_of_mem_tail hline)
    have htail : parsePureRenameDiffs (sections hunks renames).tail = parsePureRenameDiffs (sections hunks renames) := by
      rcases renames with _ | ⟨r, renames⟩
      · rfl
      · have hblank : ∀ line ∈ [['\n']], startsBlock line = false := by
          intro line hline
          rw [List.mem_singleton.mp hline]
          rfl
        exact (parsePureRenameDiffs_skip hblank).symm
    rw [List.nil_append, hskip, htail, hrename]
    rfl
  · have hsections : (sections hunks (c :: contents ++ renames)).tail =
        c.contentLines hunks ++ (sections hunks contents ++ sections hunks renames) := by
      rw [List.cons_append, sections_cons, List.tail_cons, sectionLines_content (hcontents c List.mem_cons_self)]
      simp [sections]
    have hread := parseSections_render hcontents (@skipped_sections hunks renames hrenames) le_rfl
    have hnot : ∀ line ∈ c.contentLines hunks ++ sections hunks contents, startsBlock line = false := by
      intro line hline
      rcases List.mem_append.mp hline with hline | hline
      · exact not_startsBlock_renderDiff line hline
      · obtain ⟨f, hf, hline⟩ := List.mem_flatMap.mp hline
        rcases List.mem_cons.mp hline with rfl | hline
        · rfl
        · rw [sectionLines_content (hcontents f (List.mem_cons_of_mem c hf))] at hline
          exact not_startsBlock_renderDiff line hline
    rw [hsections, hread, ← List.append_assoc, parsePureRenameDiffs_skip hnot, hrename]
    simp only [List.map_append]

end Written

/-! ### The patch -/

section Patch

variable {sha256Hex : String → String} {textDiff : TextDiff} {hunks : (old new : String) → List (Hunk Line)} {t : FsTree}

/-- What an entry starts from: the text of its file, as far as it has one. -/
def FilePatch.Found (t : FsTree) (f : FilePatch) : Prop :=
  f.operation ≠ .create → readToString t (f.validationPath false) = .ok f.original

instance (t : FsTree) (f : FilePatch) : Decidable (f.Found t) := inferInstanceAs (Decidable (_ → _ = _))

/-- A section gives an entry, if its paths are safe, its file is read and its hunks apply. -/
theorem toFilePatch_eq_ok {d : ParsedFileDiff} {f : FilePatch} (htarget : d.target = .ok (f.path, f.operation))
    (hsafe : ∀ path ∈ f.changedPaths, ensureSafeRelativePath path = .ok ()) (hempty : f.operation = .create → f.original = "")
    (hfound : f.Found t) (hhunks : d.hunks = [] → f.isPureRename = true)
    (happly : d.hunks ≠ [] → applyHunks f.original d.hunks = .ok f.modified) :
    d.toFilePatch sha256Hex t = .ok (FilePatch.withOperation sha256Hex f.path f.operation f.original f.modified) := by
  have hok {α : Type} (r : Except PatchError α) (a : α) (h : r = .ok a) : orError r = .ok a := by rw [h]; rfl
  have hmodified (hne : d.hunks ≠ []) : d.hunks.isEmpty = false := List.isEmpty_eq_false_iff.mpr hne
  unfold FilePatch.Found FilePatch.validationPath at hfound
  unfold FilePatch.changedPaths at hsafe
  unfold FilePatch.isPureRename at hhunks
  unfold ParsedFileDiff.toFilePatch
  rw [htarget]
  rcases ho : f.operation with _ | _ | _ | origin
  all_goals simp only [ho, List.mem_cons, List.not_mem_nil, or_false, forall_eq_or_imp, forall_eq] at hsafe hfound hhunks
  · have hne : d.hunks ≠ [] := fun h => absurd (hhunks h) Bool.false_ne_true
    simp [bind, Except.bind, pure, Except.pure, hok _ _ hsafe, hok _ _ (hfound (by simp)), hmodified hne, happly hne]
  · have hne : d.hunks ≠ [] := fun h => absurd (hhunks h) Bool.false_ne_true
    have happly := happly hne
    rw [hempty ho] at happly ⊢
    simp [bind, Except.bind, pure, Except.pure, hok _ _ hsafe, hmodified hne, happly]
  · have hne : d.hunks ≠ [] := fun h => absurd (hhunks h) Bool.false_ne_true
    simp [bind, Except.bind, pure, Except.pure, hok _ _ hsafe, hok _ _ (hfound (by simp)), hmodified hne, happly hne]
  · rcases eq_or_ne d.hunks [] with hnil | hne
    · have heq : f.original = f.modified := beq_iff_eq.mp (hhunks hnil)
      simp [bind, Except.bind, pure, Except.pure, hok _ _ hsafe.1, hok _ _ hsafe.2, hok _ _ (hfound (by simp)), hnil, heq]
    · simp [bind, Except.bind, pure, Except.pure, hok _ _ hsafe.1, hok _ _ hsafe.2, hok _ _ (hfound (by simp)),
        hmodified hne, happly hne]

/-- The entry with the digests of its texts, as the constructors give it. -/
def FilePatch.rebuilt (sha256Hex : String → String) (f : FilePatch) : FilePatch :=
  FilePatch.withOperation sha256Hex f.path f.operation f.original f.modified

/-- **An entry that is read is the entry that was written**, up to the digests. -/
theorem toFilePatch_parsedFile {f : FilePatch} (hempty : f.operation = .create → f.original = "")
    (hleaves : f.isPureRename = false → ∀ origin, f.operation = .rename origin → origin.components ≠ f.path.components)
    (hvalid : f.validate sha256Hex t false = .ok ()) (hfound : f.Found t) (hread : f.IsRead textDiff hunks) :
    (f.parsedFile hunks).toFilePatch sha256Hex t = .ok (f.rebuilt sha256Hex) := by
  have hsafe := FilePatch.ensureSafe_eq_ok.mp (FilePatch.validate_eq_ok.mp hvalid).1
  rcases hread with hcontent | hrename
  · have hnot : ¬ f.isPureRename = true := by rw [hcontent.notRename]; exact Bool.false_ne_true
    have hne : (hunks f.original f.modified).map parsedHunk ≠ [] := by simpa using hcontent.hunks_ne_nil
    refine toFilePatch_eq_ok ?_ hsafe hempty hfound ?_ ?_
    · rw [FilePatch.parsedFile, if_neg hnot]
      rcases ho : f.operation with _ | _ | _ | origin
      · simp [ParsedFileDiff.target, FilePatch.oldPath, FilePatch.newPath, ho]
      · simp [ParsedFileDiff.target, FilePatch.oldPath, FilePatch.newPath, ho]
      · simp [ParsedFileDiff.target, FilePatch.oldPath, FilePatch.newPath, ho]
      · have hcomponents := hleaves hcontent.notRename origin ho
        simp [ParsedFileDiff.target, FilePatch.oldPath, FilePatch.newPath, ho, hcomponents]
    · rw [FilePatch.parsedFile, if_neg hnot]
      exact fun h => absurd h hne
    · rw [FilePatch.parsedFile, if_neg hnot]
      exact fun _ => applyHunks_parsedHunk hcontent.diff
  · have hpaths := hrename.rename
    refine toFilePatch_eq_ok ?_ hsafe hempty hfound (fun _ => hpaths) ?_
    · rw [FilePatch.parsedFile, if_pos hpaths]
      unfold FilePatch.isPureRename at hpaths
      split at hpaths
      · rename_i origin ho
        simp [ParsedFileDiff.target, FilePatch.validationPath, ho]
      · cases hpaths
    · rw [FilePatch.parsedFile, if_pos hpaths]
      exact fun h => absurd rfl h

theorem mapM_eq_ok {α β γ : Type} {g : α → DiffResult γ} {h : β → α} {k : β → γ} {xs : List β}
    (hxs : ∀ x ∈ xs, g (h x) = .ok (k x)) : (xs.map h).mapM g = .ok (xs.map k) := by
  induction xs with
  | nil => rfl
  | cons x xs ih =>
    obtain ⟨hx, hxs⟩ := List.forall_mem_cons.mp hxs
    rw [List.map_cons, List.mapM_cons, hx, ih hxs]
    rfl

/-- What an entry says. -/
def FilePatch.says (f : FilePatch) : PathBuf × FileOperation × String × String :=
  (f.path, f.operation, f.original, f.modified)

/-- The entries up to the first rename without content, and the renames from there on. -/
theorem NvPatch.ReadsBack.split {p : NvPatch} (h : p.ReadsBack hunks) : ∃ contents renames,
    p.files = contents ++ renames ∧ (∀ f ∈ contents, f.isPureRename = false) ∧ ∀ f ∈ renames, f.isPureRename = true := by
  have horder := h.order
  generalize p.files = files at horder
  induction files with
  | nil => exact ⟨[], [], rfl, by simp, by simp⟩
  | cons f files ih =>
    obtain ⟨hf, hfiles⟩ := List.pairwise_cons.mp horder
    rcases hrename : f.isPureRename
    · obtain ⟨contents, renames, rfl, hcontents, hrenames⟩ := ih hfiles
      exact ⟨f :: contents, renames, rfl, List.forall_mem_cons.mpr ⟨hrename, hcontents⟩, hrenames⟩
    · exact ⟨[], f :: files, rfl, by simp, List.forall_mem_cons.mpr ⟨hrename, fun g hg => hf g hg hrename⟩⟩

/-- **What `to_unified_diff` writes is read back by `from_unified_diff`**: on the tree a patch
validates on, its text gives a patch with the same entries, if it is one that `ReadsBack`. -/
theorem reads_back {id : String} {p : NvPatch} (hdiff : ∀ old new, old ≠ new → CorrectDiff textDiff old new (hunks old new))
    (hnoop : ∀ f ∈ p.files, f.isNoop = false)
    (hlengths : ∀ f ∈ p.files, f.original.length < 2 ^ 63 ∧ f.modified.length < 2 ^ 63)
    (hvalid : p.validate sha256Hex t false = .ok ()) (hfound : ∀ f ∈ p.files, f.Found t) (h : p.ReadsBack hunks) :
    ∃ q, NvPatch.fromUnifiedDiff sha256Hex id t (p.toUnifiedDiff textDiff) = .ok (some q) ∧
      (q.files.map FilePatch.says).Perm (p.files.map FilePatch.says) := by
  rw [NvPatch.validate_eq_ok] at hvalid
  obtain ⟨contents, renames, hfiles, hcontents, hrenames⟩ := h.split
  have hdiffers : ∀ f ∈ p.files, f.isPureRename = false → f.original ≠ f.modified := by
    intro f hf hrename heq
    have hf := hnoop f hf
    unfold FilePatch.isNoop at hf
    unfold FilePatch.isPureRename at hrename
    rcases ho : f.operation with _ | _ | _ | origin <;> simp [ho, heq] at hf hrename
  have hreadContents : ∀ f ∈ contents, f.Content textDiff hunks := by
    intro f hf
    have hmem : f ∈ p.files := by rw [hfiles]; exact List.mem_append_left _ hf
    have hcontent := hcontents f hf
    have hne := hdiffers f hmem hcontent
    exact ⟨hcontent, h.words f hmem hcontent, hne, hdiff _ _ hne, h.readable f hmem hcontent, hlengths f hmem⟩
  have hreadRenames : ∀ f ∈ renames, f.PlainRename := by
    intro f hf
    have hmem : f ∈ p.files := by rw [hfiles]; exact List.mem_append_right _ hf
    refine ⟨hrenames f hf, h.plain f hmem (hrenames f hf), fun path hpath hnull => ?_⟩
    -- an absolute path is not safe
    have hsafe := FilePatch.ensureSafe_eq_ok.mp (FilePatch.validate_eq_ok.mp (hvalid f hmem)).1 path hpath
    rw [show path = ⟨"/dev/null"⟩ from congrArg PathBuf.mk hnull] at hsafe
    revert hsafe
    decide
  have hread : ∀ f ∈ p.files, f.IsRead textDiff hunks := by
    intro f hf
    rw [hfiles] at hf
    exact (List.mem_append.mp hf).imp (hreadContents f) (hreadRenames f)
  have htext := patch_toUnifiedDiff_toList hnoop fun f hf hrename => hdiff _ _ (hdiffers f hf hrename)
  rw [hfiles] at htext
  have hparse := parseFileDiffs_render hreadContents hreadRenames htext
  rw [← hfiles] at hparse
  have hentries : (p.files.map (FilePatch.parsedFile hunks)).mapM (ParsedFileDiff.toFilePatch sha256Hex t) =
      .ok (p.files.map (FilePatch.rebuilt sha256Hex)) :=
    mapM_eq_ok fun f hf =>
      toFilePatch_parsedFile (h.fresh f hf) (h.leaves f hf) (hvalid f hf) (hfound f hf) (hread f hf)
  have hsays : (p.files.map (FilePatch.rebuilt sha256Hex)).map FilePatch.says = p.files.map FilePatch.says := by
    rw [List.map_map]
    rfl
  refine ⟨⟨id, none, p.files.map (FilePatch.rebuilt sha256Hex)⟩, ?_, .of_eq hsays⟩
  have hsome : (p.files.map (FilePatch.parsedFile hunks)).isEmpty = false := by simpa using h.nonempty
  rw [NvPatch.fromUnifiedDiff, hparse]
  simp [bind, Except.bind, pure, Except.pure, hsome, hentries]

end Patch

/-! ### Examples -/

/-- A tree with one file, `c`. -/
def oneFile : FsTree := (writeString ⟨"c"⟩ "text\n" FileTree.Tree.empty).2

/-- A file is created, another one gets a new name. -/
def createAndRename : NvPatch where
  id := "patch"
  baseCommit := none
  files := [.create sampleSha256Hex ⟨"a"⟩ "line\n", .rename sampleSha256Hex ⟨"c"⟩ ⟨"d"⟩ "text\n" "text\n"]

theorem createAndRename_readsBack : createAndRename.ReadsBack allLines where
  nonempty := by decide
  order := by decide
  words := by
    have ha : PathBuf.IsWord ⟨"a"⟩ := Text.isWord_of_all (by decide)
    rintro f hf hcontent path hpath
    rcases List.mem_cons.mp hf with rfl | hf
    · obtain rfl := List.mem_singleton.mp hpath
      exact ha
    · obtain rfl := List.mem_singleton.mp hf
      cases hcontent
  plain := by
    have hc : PathBuf.IsPlain ⟨"c"⟩ := ⟨Text.isWord_of_all (by decide), by decide, by decide⟩
    have hd : PathBuf.IsPlain ⟨"d"⟩ := ⟨Text.isWord_of_all (by decide), by decide, by decide⟩
    rintro f hf hrename path hpath
    rcases List.mem_cons.mp hf with rfl | hf
    · cases hrename
    · obtain rfl := List.mem_singleton.mp hf
      rcases List.mem_cons.mp hpath with rfl | hpath
      · exact hc
      · obtain rfl := List.mem_singleton.mp hpath
        exact hd
  fresh := by decide
  leaves := by
    rintro f hf hcontent origin ho
    rcases List.mem_cons.mp hf with rfl | hf
    · cases ho
    · obtain rfl := List.mem_singleton.mp hf
      cases hcontent
  readable := by
    have hline : Readable ⟨0, 0, [.add "line\n".toList]⟩ := ⟨by decide, by decide⟩
    rintro f hf hcontent h hh
    rcases List.mem_cons.mp hf with rfl | hf
    · obtain rfl := List.mem_singleton.mp hh
      exact hline
    · obtain rfl := List.mem_singleton.mp hf
      cases hcontent

theorem reads_back_createAndRename :
    ∃ q, NvPatch.fromUnifiedDiff sampleSha256Hex "read" oneFile (createAndRename.toUnifiedDiff replaceTextDiff) =
      .ok (some q) ∧ (q.files.map FilePatch.says).Perm (createAndRename.files.map FilePatch.says) :=
  reads_back (fun old new _ => correctDiff_replaceTextDiff old new)
    (by decide) (by decide) (by decide) (by decide) createAndRename_readsBack

/-- A file whose text has no newline at its end. -/
def createUnterminated : NvPatch where
  id := "patch"
  baseCommit := none
  files := [.create sampleSha256Hex ⟨"a"⟩ "line"]

/-- The marker behind the last line of a hunk is not read, and the text gets a newline. -/
theorem unterminated_text_gets_newline :
    ¬ ∀ (sha256Hex : String → String) (id : String) (textDiff : TextDiff)
      (hunks : (old new : String) → List (Hunk Line)) (t : FsTree) (p : NvPatch),
      (∀ old new, old ≠ new → CorrectDiff textDiff old new (hunks old new)) →
      (∀ f ∈ p.files, f.isNoop = false) →
      (∀ f ∈ p.files, f.original.length < 2 ^ 63 ∧ f.modified.length < 2 ^ 63) →
      (p.files.map FilePatch.path).Nodup → p.validate sha256Hex t false = .ok () → (∀ f ∈ p.files, f.Found t) →
      ∃ q, NvPatch.fromUnifiedDiff sha256Hex id t (p.toUnifiedDiff textDiff) = .ok (some q) ∧
        (q.files.map FilePatch.says).Perm (p.files.map FilePatch.says) := by
  intro h
  obtain ⟨q, hq, hsays⟩ := h sampleSha256Hex "read" replaceTextDiff allLines FileTree.Tree.empty createUnterminated
    (fun old new _ => correctDiff_replaceTextDiff old new)
    (by decide) (by decide) (by decide) (by decide) (by decide)
  have hread : NvPatch.fromUnifiedDiff sampleSha256Hex "read" FileTree.Tree.empty
      (createUnterminated.toUnifiedDiff replaceTextDiff) =
      .ok (some ⟨"read", none, [.create sampleSha256Hex ⟨"a"⟩ "line\n"]⟩) := by decide
  rw [hread] at hq
  cases hq
  exact absurd hsays (by decide)

end Nerve.Patch
