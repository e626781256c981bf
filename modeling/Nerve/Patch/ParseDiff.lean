import Nerve.Patch.UnifiedDiff
import Nerve.Library.LineDiff
import Nerve.Library.Text

/-!
# Reading a unified diff

`from_unified_diff` reads the text of a diff back into a patch. It goes over the lines twice:
once for the sections with `---` and `+++` headers and their hunks, once for the renames without
any content, which have no such headers; the patch has the former first. What a hunk says is
then applied to the file as it is.

A line keeps its end. The loops over lines take their number as fuel, as each turn takes at least one of
them. The one thing in here that could panic, the slice behind the first character of a hunk line, is an outcome
of its own.
-/

namespace Nerve.Patch

open Nerve.Text Nerve.LineDiff

/-- How reading fails. -/
inductive DiffFailure where
  | error (e : PatchError)
  | panic
  deriving DecidableEq, Repr

abbrev DiffResult (α : Type) := Except DiffFailure α

def invalidDiff {α : Type} (message : String) : DiffResult α := .error (.error (.invalidUnifiedDiff message))

/-- `r?`. -/
def orError {α : Type} (r : Except PatchError α) : DiffResult α := r.mapError .error

/-- A line with its end. -/
abbrev Line := List Char

/-! ### Headers -/

/-- `trim_end_matches(['\r', '\n'])`. -/
def trimLineEnd (line : Line) : Line := (line.reverse.dropWhile fun c => c == '\r' || c == '\n').reverse

def unescape : Char → Char
  | 'n' => '\n'
  | 't' => '\t'
  | other => other

/-- What stands before the closing quote. -/
def unquote : List Char → Option (List Char)
  | [] => none
  | '"' :: _ => some []
  | ['\\'] => none
  | '\\' :: escaped :: rest => (unquote rest).map (unescape escaped :: ·)
  | other :: rest => (unquote rest).map (other :: ·)

def parseDiffPathToken : List Char → Option (List Char)
  | '"' :: stripped => unquote stripped
  | value => (splitWhitespace value).head?

def normalizeDiffPath (path : List Char) : Except PatchError (Option PathBuf) :=
  if path = "/dev/null".toList then .ok none
  else
    let relative := (stripPrefix "a/".toList path <|> stripPrefix "b/".toList path).getD path
    if relative.isEmpty then .error (.unsafePath ⟨String.ofList path⟩ "empty path")
    else .ok (some ⟨String.ofList relative⟩)

def parseFileHeader (line : Line) (start : String) : Option (Option PathBuf) :=
  (stripPrefix start.toList (trimLineEnd line)).bind fun rest =>
    (parseDiffPathToken (trimStart rest)).bind fun token => (normalizeDiffPath token).toOption

def parseHunkRange (value : List Char) (sign : Char) : Option (Nat × Nat) :=
  (stripPrefix [sign] value).bind fun value =>
    match value.dropWhile (· != ',') with
    | [] => (parseUsize value).map fun start => (start, 1)
    | _ :: count =>
      (parseUsize (value.takeWhile (· != ','))).bind fun start => (parseUsize count).map fun count => (start, count)

/-- Where the hunk starts in the old file and how many lines it has of it, and the same of the new one. -/
def parseHunkHeader (line : Line) : Option (Nat × Nat × Nat × Nat) :=
  (stripPrefix "@@ ".toList (trimLineEnd line)).bind fun rest =>
    (before " @@".toList rest).bind fun ranges =>
      match splitWhitespace ranges with
      | oldRange :: newRange :: _ =>
        (parseHunkRange oldRange '-').bind fun old => (parseHunkRange newRange '+').map fun new =>
          (old.1, old.2, new.1, new.2)
      | _ => none

/-! ### Hunks -/

structure ParsedHunk where
  oldStart : Nat
  oldCount : Nat
  newCount : Nat
  lines : List (HunkLine Line)
  deriving DecidableEq, Repr

/-- A line without its end. -/
def popNewline (value : Line) : Line :=
  if value.getLast? = some '\n' then
    if value.dropLast.getLast? = some '\r' then value.dropLast.dropLast else value.dropLast
  else value

def HunkLine.popNewline : HunkLine Line → HunkLine Line
  | .context value => .context (Patch.popNewline value)
  | .add value => .add (Patch.popNewline value)
  | .remove value => .remove (Patch.popNewline value)

def markPreviousLineWithoutNewline (hunkLines : List (HunkLine Line)) : DiffResult (List (HunkLine Line)) :=
  match hunkLines.getLast? with
  | none => invalidDiff "newline marker without previous hunk line"
  | some last => .ok (hunkLines.dropLast ++ [HunkLine.popNewline last])

def noNewlineMarker : String := "\\ No newline at end of file"

/-- After the lines of a hunk. -/
def finishHunk (oldCount newCount oldSeen newSeen : Nat) (hunkLines : List (HunkLine Line)) (rest : List Line) :
    DiffResult (List (HunkLine Line) × List Line) :=
  if oldSeen ≠ oldCount ∨ newSeen ≠ newCount then
    invalidDiff s!"hunk line count mismatch: expected -{oldCount} +{newCount}, got -{oldSeen} +{newSeen}"
  else .ok (hunkLines, rest)

/-- The lines of a hunk up to its counts, and the lines after it. -/
def parseHunkLines (oldCount newCount : Nat) : (oldSeen newSeen : Nat) → List (HunkLine Line) → List Line →
    DiffResult (List (HunkLine Line) × List Line)
  | oldSeen, newSeen, hunkLines, [] => finishHunk oldCount newCount oldSeen newSeen hunkLines []
  | oldSeen, newSeen, hunkLines, line :: rest =>
    if oldSeen < oldCount ∨ newSeen < newCount then
      if noNewlineMarker.toList.isPrefixOf line then
        match markPreviousLineWithoutNewline hunkLines with
        | .error e => .error e
        | .ok hunkLines => parseHunkLines oldCount newCount oldSeen newSeen hunkLines rest
      else
        match line with
        | [] => invalidDiff "empty hunk line"
        | tag :: content =>
          if tag.utf8Size ≠ 1 then .error .panic
          else
            match tag with
            | ' ' => parseHunkLines oldCount newCount (oldSeen + 1) (newSeen + 1) (hunkLines ++ [.context content]) rest
            | '-' => parseHunkLines oldCount newCount (oldSeen + 1) newSeen (hunkLines ++ [.remove content]) rest
            | '+' => parseHunkLines oldCount newCount oldSeen (newSeen + 1) (hunkLines ++ [.add content]) rest
            | other => invalidDiff s!"unexpected hunk line prefix `{other}`"
    else finishHunk oldCount newCount oldSeen newSeen hunkLines (line :: rest)

/-! ### Sections -/

structure ParsedFileDiff where
  oldPath : Option PathBuf
  newPath : Option PathBuf
  renameFrom : Option PathBuf
  renameTo : Option PathBuf
  hunks : List ParsedHunk
  deriving DecidableEq, Repr

/-- The hunks of a section, and the lines from the next section's header on. -/
def parseHunks : (fuel : Nat) → List ParsedHunk → List Line → DiffResult (List ParsedHunk × List Line)
  | 0, hunks, lines => .ok (hunks, lines)
  | _ + 1, hunks, [] => .ok (hunks, [])
  | fuel + 1, hunks, line :: rest =>
    if (parseFileHeader line "--- ").isSome then .ok (hunks, line :: rest)
    else
      match parseHunkHeader line with
      | none => parseHunks fuel hunks rest
      | some (oldStart, oldCount, _, newCount) =>
        match parseHunkLines oldCount newCount 0 0 [] rest with
        | .error e => .error e
        | .ok (hunkLines, rest) => parseHunks fuel (hunks ++ [⟨oldStart, oldCount, newCount, hunkLines⟩]) rest

/-- The sections with content. -/
def parseSections : (fuel : Nat) → List Line → DiffResult (List ParsedFileDiff)
  | 0, _ => .ok []
  | _ + 1, [] => .ok []
  | fuel + 1, line :: rest =>
    match parseFileHeader line "--- " with
    | none => parseSections fuel rest
    | some oldHeader =>
      match rest with
      | [] => invalidDiff "missing +++ file header after --- header"
      | nextLine :: rest' =>
        match parseFileHeader nextLine "+++ " with
        | none => parseSections fuel rest
        | some newHeader =>
          match parseHunks rest'.length [] rest' with
          | .error e => .error e
          | .ok (hunks, rest) =>
            match parseSections fuel rest with
            | .error e => .error e
            | .ok files =>
              .ok (if hunks.isEmpty then files else ⟨oldHeader, newHeader, none, none, hunks⟩ :: files)

/-- A line that a block of git begins with. -/
def startsBlock (line : Line) : Bool := "diff --git ".toList.isPrefixOf line

/-- The first line of the block with this beginning, behind it. -/
def findLine (block : List Line) (start : String) : Option (List Char) :=
  block.findSome? fun line => stripPrefix start.toList (trimLineEnd line)

def parseRenamePath (block : List Line) (start : String) : DiffResult (Option PathBuf) :=
  match findLine block start with
  | none => .ok none
  | some line =>
    match parseDiffPathToken (trimStart line) with
    | none => invalidDiff s!"empty `{String.ofList (trimEnd start.toList)}` path"
    | some token => orError (normalizeDiffPath token)

/-- The rename a block is about, if it has no content. -/
def parseBlock (block : List Line) : DiffResult (List ParsedFileDiff) :=
  if block.any fun line => (parseFileHeader line "--- ").isSome then .ok []
  else
    match parseRenamePath block "rename from " with
    | .error e => .error e
    | .ok renameFrom =>
      match parseRenamePath block "rename to " with
      | .error e => .error e
      | .ok renameTo =>
        .ok (if renameFrom.isSome || renameTo.isSome then [⟨none, none, renameFrom, renameTo, []⟩] else [])

/-- The renames without content. A block goes on to the beginning of the next. -/
def parsePureRenameDiffs : List Line → DiffResult (List ParsedFileDiff)
  | [] => .ok []
  | line :: rest =>
    if startsBlock line then
      match parseBlock (line :: rest.takeWhile fun line => !startsBlock line) with
      | .error e => .error e
      | .ok found =>
        match parsePureRenameDiffs rest with
        | .error e => .error e
        | .ok files => .ok (found ++ files)
    else parsePureRenameDiffs rest

def parseFileDiffs (diff : String) : DiffResult (List ParsedFileDiff) :=
  let lines := splitInclusive '\n' diff.toList
  match parseSections lines.length lines with
  | .error e => .error e
  | .ok files =>
    match parsePureRenameDiffs lines with
    | .error e => .error e
    | .ok renames => .ok (files ++ renames)

/-! ### From hunks to texts -/

def splitLinesPreservingEndings (value : String) : List Line := splitInclusive '\n' value.toList

def validateHunkCounts (hunk : ParsedHunk) : DiffResult Unit :=
  if (olds hunk.lines).length ≠ hunk.oldCount ∨ (news hunk.lines).length ≠ hunk.newCount then
    invalidDiff "parsed hunk counts do not match hunk header"
  else .ok ()

/-- The index behind the line, if the line is the one expected. -/
def consumeOriginalLine (originalLines : List Line) (originalIndex : Nat) (expected : Line) : DiffResult Nat :=
  match originalLines[originalIndex]? with
  | none => invalidDiff "hunk consumes past end of target file"
  | some actual =>
    if actual ≠ expected then invalidDiff s!"hunk context mismatch at target line {originalIndex + 1}"
    else .ok (originalIndex + 1)

/-- The lines of one hunk: the index in the original lines and the modified lines so far. -/
def applyHunkLines (originalLines : List Line) : (originalIndex : Nat) → (modified : List Line) →
    List (HunkLine Line) → DiffResult (Nat × List Line)
  | originalIndex, modified, [] => .ok (originalIndex, modified)
  | originalIndex, modified, .context value :: lines =>
    match consumeOriginalLine originalLines originalIndex value with
    | .error e => .error e
    | .ok originalIndex => applyHunkLines originalLines originalIndex (modified ++ [value]) lines
  | originalIndex, modified, .remove value :: lines =>
    match consumeOriginalLine originalLines originalIndex value with
    | .error e => .error e
    | .ok originalIndex => applyHunkLines originalLines originalIndex modified lines
  | originalIndex, modified, .add value :: lines =>
    applyHunkLines originalLines originalIndex (modified ++ [value]) lines

def applyHunkList (originalLines : List Line) : (originalIndex : Nat) → (modified : List Line) →
    List ParsedHunk → DiffResult (Nat × List Line)
  | originalIndex, modified, [] => .ok (originalIndex, modified)
  | originalIndex, modified, hunk :: hunks =>
    match validateHunkCounts hunk with
    | .error e => .error e
    | .ok () =>
      let targetIndex := hunk.oldStart - 1
      if targetIndex < originalIndex ∨ targetIndex > originalLines.length then
        invalidDiff s!"hunk starts outside target file at line {hunk.oldStart}"
      else
        let kept := (originalLines.drop originalIndex).take (targetIndex - originalIndex)
        match applyHunkLines originalLines targetIndex (modified ++ kept) hunk.lines with
        | .error e => .error e
        | .ok (originalIndex, modified) => applyHunkList originalLines originalIndex modified hunks

def applyHunks (original : String) (hunks : List ParsedHunk) : DiffResult String :=
  let originalLines := splitLinesPreservingEndings original
  match applyHunkList originalLines 0 [] hunks with
  | .error e => .error e
  | .ok (originalIndex, modified) =>
    .ok (String.ofList (modified ++ originalLines.drop originalIndex).flatten)

/-! ### From sections to entries -/

/-- The path and the operation a section is about. Paths are compared by their components. -/
def ParsedFileDiff.target (d : ParsedFileDiff) : DiffResult (PathBuf × FileOperation) :=
  if d.renameFrom.isSome || d.renameTo.isSome then
    match d.renameFrom, d.renameTo with
    | none, _ => invalidDiff "rename diff is missing `rename from`"
    | _, none => invalidDiff "rename diff is missing `rename to`"
    | some origin, some target => .ok (target, .rename origin)
  else
    match d.oldPath, d.newPath with
    | none, some newPath => .ok (newPath, .create)
    | some oldPath, none => .ok (oldPath, .delete)
    | some oldPath, some newPath =>
      if oldPath.components = newPath.components then .ok (newPath, .modify) else .ok (newPath, .rename oldPath)
    | none, none => invalidDiff "file diff has neither old nor new path"

def ParsedFileDiff.toFilePatch (sha256Hex : String → String) (t : FsTree) (d : ParsedFileDiff) :
    DiffResult FilePatch := do
  let (path, operation) ← d.target
  orError (ensureSafeRelativePath path)
  if let .rename origin := operation then orError (ensureSafeRelativePath origin)
  let original ←
    match operation with
    | .create => .ok ""
    | .rename origin => orError (readToString t origin)
    | .modify | .delete => orError (readToString t path)
  let modified ←
    if d.hunks.isEmpty then
      match operation with
      | .rename _ => .ok original
      | _ => invalidDiff "file diff has no hunks"
    else applyHunks original d.hunks
  pure (FilePatch.withOperation sha256Hex path operation original modified)

/-- The patch that a diff says, on this tree, under a fresh identifier. -/
def NvPatch.fromUnifiedDiff (sha256Hex : String → String) (id : String) (t : FsTree) (diff : String) :
    DiffResult (Option NvPatch) := do
  let fileDiffs ← parseFileDiffs diff
  if fileDiffs.isEmpty then pure none
  else
    let files ← fileDiffs.mapM (ParsedFileDiff.toFilePatch sha256Hex t)
    pure (some ⟨id, none, files⟩)

end Nerve.Patch
