import Nerve.Patch.Model

/-!
# Patches as text

`to_unified_diff` writes a patch as the text of a unified diff, one section for each
entry that changes something, and `canonical_hash` hashes what a patch says, whatever
the order of its entries. The line diff of two texts is the work of the `similar` crate
and is a parameter, `TextDiff`: the old text, the new one and the two header paths give the
text of the section.
-/

namespace Nerve.Patch

/-- `TextDiff::from_lines(old, new).unified_diff().header(old_path, new_path)`, written out. -/
abbrev TextDiff := (old new oldPath newPath : String) → String

section Encode

variable (textDiff : TextDiff)

def FilePatch.toUnifiedDiff (f : FilePatch) : String :=
  let withContent : String :=
    let oldPath := match f.operation with
      | .create => "/dev/null"
      | .rename origin => "a/" ++ origin.text
      | .modify | .delete => "a/" ++ f.path.text
    let newPath := match f.operation with
      | .delete => "/dev/null"
      | .modify | .create | .rename _ => "b/" ++ f.path.text
    textDiff f.original f.modified oldPath newPath
  match f.operation with
  | .rename origin =>
    if f.original = f.modified then
      s!"diff --git a/{origin.text} b/{f.path.text}\nsimilarity index 100%\nrename from {origin.text}\nrename to {f.path.text}\n"
    else withContent
  | _ => withContent

/-- The sections one after another, an empty line before each but the first. -/
def NvPatch.toUnifiedDiff (p : NvPatch) : String :=
  p.files.foldl (fun out f =>
    if f.isNoop then out
    else if out.isEmpty then f.toUnifiedDiff textDiff
    else out ++ "\n" ++ f.toUnifiedDiff textDiff) ""

end Encode

/-! ### The canonical hash -/

/-- The place of a component's variant among the variants. -/
def Component.rank : Component → Nat
  | .rootDir => 0
  | .curDir => 1
  | .parentDir => 2
  | .normal _ => 3

/-- The order of components: the variants in order, names by their bytes. -/
def Component.compare : Component → Component → Ordering
  | .normal a, .normal b => Ord.compare a b
  | a, b => Ord.compare a.rank b.rank

/-- Whether a path is at most another: component by component. -/
def PathBuf.le (a b : PathBuf) : Bool := go a.components b.components
where
  go : List Component → List Component → Bool
    | [], _ => true
    | _ :: _, [] => false
    | x :: xs, y :: ys =>
      match x.compare y with
      | .lt => true
      | .gt => false
      | .eq => go xs ys

/-- `replace("\r\n", "\n")`. -/
def replaceCrlf (text : String) : String := String.ofList (go text.toList)
where
  go : List Char → List Char
    | [] => []
    | '\r' :: '\n' :: rest => '\n' :: go rest
    | c :: rest => c :: go rest

def NvPatch.canonicalHash (sha256Hex : String → String) (p : NvPatch) : String :=
  let entry (f : FilePatch) : String :=
    let operation := match f.operation with
      | .modify => "modify\x00"
      | .create => "create\x00"
      | .delete => "delete\x00"
      | .rename origin => "rename\x00" ++ origin.text ++ "\x00"
    f.path.text ++ "\x00" ++ operation ++ replaceCrlf f.original ++ "\x00" ++ replaceCrlf f.modified ++ "\x00"
  sha256Hex (String.join ((p.files.mergeSort fun a b => a.path.le b.path).map entry))

end Nerve.Patch
