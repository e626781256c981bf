import Nerve.Patch.UnifiedDiff
import Nerve.Library.Text
import Mathlib.Data.List.Sort

/-!
# What the canonical hash tells apart

The canonical hash is taken of the entries in the order of their paths, each written out field by
field with a NUL behind every field: the path, the operation, the source of a rename, and the two
texts with their ends of lines made one. The number of fields of an entry is told by its operation,
so the fields give the entries back (`flatMap_fields_injective`). The text does not give the fields
back: nothing keeps a NUL out of a field, and a text with one in it reads as two fields. And the sort
leaves entries for one path, in two spellings, as they came.

`canonicalHash_iff` says which patches the hash tells from others, so that it is the same just for
patches with the same contents. Among patches without NULs these are the ones that spell every path
in one way (`NvPatch.SpelledOnce`). Among patches that do the same to the same paths, whatever is in
them, there must be no NUL behind the path of any entry either (`NvPatch.NulFreeTexts`): where there
is one, it can be taken for the end of a field, and what is before it for the whole field. From all
patches whose paths have no NUL in them, as those of files have not, no patch with two entries is
told: the second can stand in the text of the first, field by field.
-/

namespace Nerve.Patch

open Nerve.Text

/-! ### What is hashed -/

/-- The fields an operation is written as. -/
def FileOperation.fields : FileOperation → List String
  | .modify => ["modify"]
  | .create => ["create"]
  | .delete => ["delete"]
  | .rename origin => ["rename", origin.text]

/-- The path, operation and texts of an entry. -/
abbrev Content := PathBuf × FileOperation × String × String

/-- What an entry says: its path, operation and texts, ends of lines made one. -/
def FilePatch.content (f : FilePatch) : Content :=
  (f.path, f.operation, replaceCrlf f.original, replaceCrlf f.modified)

/-- The fields behind the path of an entry. -/
def textFields : Content → List String
  | (_, operation, original, modified) => operation.fields ++ [original, modified]

/-- The fields an entry is written as. -/
def contentFields (c : Content) : List String := c.1.text :: textFields c

/-- The fields of an entry before its texts: the path, the operation and the source of a rename. -/
def headFields (c : Content) : List String := c.1.text :: c.2.1.fields

/-- What an entry does to which path. -/
def deed (c : Content) : PathBuf × Option String := (c.1, c.2.1.fields.head?)

/-- The parts of a field between its NULs. -/
def cutAtNul (field : String) : List (List Char) := field.toList.splitOn '\x00'

namespace NvPatch

/-- What a patch says, in the order of its entries. -/
def contents (p : NvPatch) : List Content := p.files.map FilePatch.content

/-- What a patch says, in the order of its paths. -/
def sorted (p : NvPatch) : List Content :=
  (p.files.mergeSort fun a b => a.path.le b.path).map FilePatch.content

/-- The fields a patch is written as. -/
def fields (p : NvPatch) : List String := p.sorted.flatMap contentFields

/-- All of them cut at their NULs. -/
def pieces (p : NvPatch) : List (List Char) := p.fields.flatMap cutAtNul

/-- No field has a NUL in it. -/
def NulFree (p : NvPatch) : Prop := ∀ c ∈ p.contents, ∀ f ∈ contentFields c, '\x00' ∉ f.toList

/-- No source of a rename and no text has a NUL in it. -/
def NulFreeTexts (p : NvPatch) : Prop := ∀ c ∈ p.contents, ∀ f ∈ textFields c, '\x00' ∉ f.toList

/-- No path has a NUL in it, neither that of an entry nor the source of a rename. -/
def NulFreePaths (p : NvPatch) : Prop := ∀ c ∈ p.contents, ∀ f ∈ headFields c, '\x00' ∉ f.toList

/-- The entries are for distinct paths. -/
def Distinct (p : NvPatch) : Prop := (p.files.map (·.path)).Nodup

/-- No path is spelled in two ways. -/
def SpelledOnce (p : NvPatch) : Prop := (p.files.map (·.path.components)).Nodup

/-- The patches have the same contents, in whatever order. -/
def SameContents (p p' : NvPatch) : Prop := ∀ c, c ∈ p.contents ↔ c ∈ p'.contents

/-- The patches do the same to the same paths, with whatever texts and in whatever order. -/
def SameDeeds (p p' : NvPatch) : Prop := (p.contents.map deed).Perm (p'.contents.map deed)

/-- The patches have one hash just if they have the same contents. -/
def ToldApart (sha256Hex : String → String) (p p' : NvPatch) : Prop :=
  p.canonicalHash sha256Hex = p'.canonicalHash sha256Hex ↔ p.SameContents p'

instance (p : NvPatch) : Decidable p.NulFree := inferInstanceAs (Decidable (∀ _ ∈ _, _))
instance (p : NvPatch) : Decidable p.NulFreeTexts := inferInstanceAs (Decidable (∀ _ ∈ _, _))
instance (p : NvPatch) : Decidable p.NulFreePaths := inferInstanceAs (Decidable (∀ _ ∈ _, _))
instance (p : NvPatch) : Decidable p.Distinct := inferInstanceAs (Decidable (List.Nodup _))
instance (p : NvPatch) : Decidable p.SpelledOnce := inferInstanceAs (Decidable (List.Nodup _))

end NvPatch

/-! ### Fields and pieces -/

section Split

variable {c : Char}

/-- Putting the separator behind every piece. -/
theorem flatten_splitOn (s : List Char) : ((s.splitOn c).map (· ++ [c])).flatten = s ++ [c] := by
  induction s with
  | nil => simp
  | cons x s ih =>
    rw [List.splitOn_cons_eq_if_modifyHead]
    split_ifs with hx
    · rw [List.map_cons, List.flatten_cons, ih]
      simp [beq_iff_eq.mp hx]
    · rcases hs : s.splitOn c with _ | ⟨piece, rest⟩
      · exact absurd hs (List.splitOn_ne_nil _ _)
      · rw [hs] at ih
        simpa using ih

theorem not_mem_of_mem_splitOn {s piece : List Char} (h : piece ∈ s.splitOn c) : c ∉ piece := by
  induction s generalizing piece with
  | nil =>
    rw [List.splitOn_nil, List.mem_singleton] at h
    simp [h]
  | cons x s ih =>
    rw [List.splitOn_cons_eq_if_modifyHead] at h
    split_ifs at h with hx
    · rcases List.mem_cons.mp h with rfl | h
      · simp
      · exact ih h
    · rcases hs : s.splitOn c with _ | ⟨first, rest⟩
      · exact absurd hs (List.splitOn_ne_nil _ _)
      · rw [hs] at h ih
        rcases List.mem_cons.mp h with rfl | h
        · have hne : c ≠ x := fun he => hx (by rw [he]; exact beq_self_eq_true x)
          simpa [hne] using ih (List.mem_cons_self ..)
        · exact ih (List.mem_cons_of_mem _ h)

theorem length_splitOn (s : List Char) : (s.splitOn c).length = s.count c + 1 := by
  induction s with
  | nil => simp
  | cons x s ih =>
    rw [List.splitOn_cons_eq_if_modifyHead, List.count_cons]
    split_ifs <;> simp [ih]

end Split

/-- A field behind which a NUL stands is its pieces, a NUL behind each. -/
theorem toList_join_fields (fs : List String) :
    (String.join (fs.map (· ++ "\x00"))).toList = ((fs.flatMap cutAtNul).map (· ++ ['\x00'])).flatten := by
  induction fs with
  | nil => rfl
  | cons f fs ih =>
    rw [String.toList_join] at ih ⊢
    rw [List.map_cons, List.flatMap_cons, ih, List.flatMap_cons, List.map_append, List.flatten_append, cutAtNul,
      flatten_splitOn]
    simp

/-- The same text is the same pieces. -/
theorem join_fields_inj {fs fs' : List String} :
    String.join (fs.map (· ++ "\x00")) = String.join (fs'.map (· ++ "\x00")) ↔
      fs.flatMap cutAtNul = fs'.flatMap cutAtNul := by
  have hline (fs : List String) : ∀ line ∈ (fs.flatMap cutAtNul).map (· ++ ['\x00']), IsLine '\x00' line := by
    rw [List.forall_mem_map]
    intro piece hpiece
    obtain ⟨f, -, hpiece⟩ := List.mem_flatMap.mp hpiece
    exact ⟨piece, not_mem_of_mem_splitOn hpiece, rfl⟩
  rw [← String.toList_inj, toList_join_fields, toList_join_fields]
  constructor
  · intro h
    have hlines := congrArg (splitInclusive '\x00') h
    rw [splitInclusive_flatten (hline fs), splitInclusive_flatten (hline fs')] at hlines
    exact List.map_injective_iff.mpr (fun a b hab => List.append_cancel_right hab) hlines
  · intro h
    rw [h]

/-- The hash is that of the fields, a NUL behind each. -/
theorem NvPatch.canonicalHash_eq (sha256Hex : String → String) (p : NvPatch) :
    p.canonicalHash sha256Hex = sha256Hex (String.join (p.fields.map (· ++ "\x00"))) := by
  unfold canonicalHash fields sorted
  refine congrArg sha256Hex ?_
  rw [← String.toList_inj]
  induction p.files.mergeSort fun a b => a.path.le b.path with
  | nil => rfl
  | cons f fs ih =>
    simp only [String.toList_join] at ih ⊢
    rw [List.map_cons, List.flatMap_cons, ih, List.map_cons, List.flatMap_cons, List.map_append, List.flatMap_append]
    congr 1
    rcases ho : f.operation with _ | _ | _ | origin <;>
      simp [FilePatch.content, contentFields, textFields, FileOperation.fields, ho]

theorem NvPatch.canonicalHash_inj {sha256Hex : String → String} (hsha : Function.Injective sha256Hex) {p p' : NvPatch} :
    p.canonicalHash sha256Hex = p'.canonicalHash sha256Hex ↔ p.pieces = p'.pieces := by
  rw [canonicalHash_eq, canonicalHash_eq, hsha.eq_iff]
  exact join_fields_inj

/-- The fields tell the entries: how many there are is told by the operation. -/
theorem contentFields_append_inj {c c' : Content} {rest rest' : List String}
    (h : contentFields c ++ rest = contentFields c' ++ rest') : c = c' ∧ rest = rest' := by
  obtain ⟨⟨path⟩, operation, original, modified⟩ := c
  obtain ⟨⟨path'⟩, operation', original', modified'⟩ := c'
  rcases operation with _ | _ | _ | ⟨⟨origin⟩⟩ <;> rcases operation' with _ | _ | _ | ⟨⟨origin'⟩⟩ <;>
    simp_all [contentFields, textFields, FileOperation.fields]

theorem flatMap_fields_injective : Function.Injective (List.flatMap contentFields) := by
  intro cs cs' h
  have hne (c : Content) (rest : List String) : contentFields c ++ rest ≠ [] := by
    simp [contentFields]
  induction cs generalizing cs' with
  | nil =>
    rcases cs' with _ | ⟨c', cs'⟩
    · rfl
    · exact absurd h.symm (hne _ _)
  | cons c cs ih =>
    rcases cs' with _ | ⟨c', cs'⟩
    · exact absurd h (hne _ _)
    · obtain ⟨rfl, hrest⟩ := contentFields_append_inj h
      rw [ih hrest]

/-! ### The order of paths -/

/-- The name of a component. -/
def Component.name : Component → String
  | .normal name => name
  | _ => ""

theorem Component.compare_eq : Component.compare = compareLex (compareOn Component.rank) (compareOn Component.name) := by
  funext a b
  cases a <;> cases b <;> rfl

instance : Std.TransCmp Component.compare := by
  rw [Component.compare_eq]
  infer_instance

instance : Std.LawfulEqCmp Component.compare where
  eq_of_compare {a b} h := by
    rw [Component.compare_eq, compareLex_eq_eq] at h
    obtain ⟨hrank, hname⟩ := h
    cases a <;> cases b <;> simp_all [compareOn, Component.rank, Component.name]
  compare_self {a} := by
    rw [Component.compare_eq]
    exact Std.ReflCmp.compare_self

theorem PathBuf.le_eq (a b : PathBuf) : a.le b = (List.compareLex Component.compare a.components b.components).isLE := by
  unfold PathBuf.le
  generalize a.components = xs, b.components = ys
  induction xs generalizing ys with
  | nil => cases ys <;> rfl
  | cons x xs ih =>
    rcases ys with _ | ⟨y, ys⟩
    · rfl
    · rw [PathBuf.le.go, List.compareLex_cons_cons]
      rcases x.compare y
      · rfl
      · exact ih ys
      · rfl

theorem PathBuf.le_trans {a b c : PathBuf} (hab : a.le b = true) (hbc : b.le c = true) : a.le c = true := by
  rw [le_eq] at hab hbc ⊢
  exact Std.TransCmp.isLE_trans hab hbc

theorem PathBuf.le_total (a b : PathBuf) : (a.le b || b.le a) = true := by
  have hswap : List.compareLex Component.compare b.components a.components =
      (List.compareLex Component.compare a.components b.components).swap := Std.OrientedCmp.eq_swap
  rw [le_eq, le_eq, hswap]
  cases List.compareLex Component.compare a.components b.components <;> rfl

/-- Paths in two spellings are at most each other. -/
theorem PathBuf.le_of_components {a b : PathBuf} (h : a.components = b.components) : a.le b = true := by
  have hself : List.compareLex Component.compare b.components b.components = .eq := Std.ReflCmp.compare_self
  rw [le_eq, h, hself]
  rfl

namespace NvPatch

variable {p p' : NvPatch}

theorem sorted_perm (p : NvPatch) : p.sorted.Perm p.contents := (List.mergeSort_perm _ _).map _

theorem length_sorted : p.sorted.length = p.files.length := by
  rw [sorted, List.length_map, List.length_mergeSort]

theorem mem_sorted {c : Content} : c ∈ p.sorted ↔ c ∈ p.contents :=
  (sorted_perm p).mem_iff

/-- To sort the entries is to sort what they say. -/
theorem sorted_eq (p : NvPatch) : p.sorted = p.contents.mergeSort fun c d => c.1.le d.1 :=
  List.map_mergeSort fun _ _ _ _ => rfl

theorem pairwise_sorted (p : NvPatch) : p.sorted.Pairwise fun c d =>
    (List.compareLex Component.compare c.1.components d.1.components).isLE = true := by
  rw [sorted_eq]
  have hsorted := @List.pairwise_mergeSort Content (fun c d => c.1.le d.1) (fun _ _ _ => PathBuf.le_trans)
    (fun _ _ => PathBuf.le_total _ _) p.contents
  exact hsorted.imp fun {c d} hcd => by rwa [PathBuf.le_eq] at hcd

/-- What two patches say alike is sorted alike, where the path tells which of it is meant. -/
theorem map_sorted_eq {α : Type} (g : Content → α) (key : α → List Component) (hkey : ∀ c, key (g c) = c.1.components)
    (hinj : ∀ c ∈ p.contents, ∀ d ∈ p.contents, c.1.components = d.1.components → g c = g d)
    (hperm : (p.contents.map g).Perm (p'.contents.map g)) : p.sorted.map g = p'.sorted.map g := by
  have hmem {q : NvPatch} : (q.sorted.map g).Perm (q.contents.map g) := (sorted_perm q).map g
  have hsorted (q : NvPatch) : (q.sorted.map g).Pairwise
      fun a b => (List.compareLex Component.compare (key a) (key b)).isLE = true := by
    rw [List.pairwise_map]
    simpa only [hkey] using pairwise_sorted q
  refine (hmem.trans (hperm.trans hmem.symm)).eq_of_pairwise (fun a b ha hb hle hge => ?_) (hsorted p) (hsorted p')
  obtain ⟨c, hc, rfl⟩ := List.mem_map.mp (hmem.mem_iff.mp ha)
  obtain ⟨d, hd, rfl⟩ := List.mem_map.mp (hperm.mem_iff.mpr (hmem.mem_iff.mp hb))
  rw [hkey, hkey] at hle hge
  exact hinj c hc d hd (Std.LawfulEqCmp.eq_of_compare (Std.OrientedCmp.isLE_antisymm hle hge))

/-- The paths of the same contents are sorted the same way, up to spelling. -/
theorem components_sorted (h : p.contents.Perm p'.contents) :
    p.sorted.map (·.1.components) = p'.sorted.map (·.1.components) :=
  map_sorted_eq (·.1.components) (fun path => path) (fun _ => rfl) (fun _ _ _ _ heq => heq) (h.map _)

theorem distinct_iff : p.Distinct ↔ (p.contents.map (·.1)).Nodup := by
  rw [Distinct, contents, List.map_map]
  rfl

/-- So are the paths when sorted. -/
theorem Distinct.sorted (h : p.Distinct) : (p.sorted.map (·.1)).Nodup :=
  (p.sorted_perm.map _).nodup_iff.mpr (distinct_iff.mp h)

theorem spelledOnce_iff : p.SpelledOnce ↔ (p.contents.map (·.1.components)).Nodup := by
  rw [SpelledOnce, contents, List.map_map]
  rfl

end NvPatch

/-! ### NULs in a path -/

theorem sum_count_component (pieces : List (List Char)) :
    ((pieces.filterMap component).map (·.name.toList.count '\x00')).sum = (pieces.map (·.count '\x00')).sum := by
  induction pieces with
  | nil => rfl
  | cons piece pieces ih =>
    rw [List.filterMap_cons, List.map_cons, List.sum_cons, ← ih]
    have hnone (h : component piece = none) : piece.count '\x00' = 0 := by
      unfold component at h
      split at h <;> simp_all
    have hsome {c : Component} (h : component piece = some c) : c.name.toList.count '\x00' = piece.count '\x00' := by
      unfold component at h
      split at h <;> cases h <;> simp [Component.name]
    rcases hc : component piece with _ | c
    · simp [hnone hc]
    · simp [hsome hc]

/-- However a path is spelled, there are as many NULs in it. -/
theorem PathBuf.count_nul (path : PathBuf) :
    (path.components.map (·.name.toList.count '\x00')).sum = path.text.toList.count '\x00' := by
  have htext : path.text.toList.count '\x00' = ((path.text.toList.splitOn '/').map (·.count '\x00')).sum := by
    have h := congrArg (List.count '\x00') (flatten_splitOn (c := '/') path.text.toList)
    rw [List.count_flatten, List.map_map] at h
    simpa [Function.comp_def] using h.symm
  rw [htext]
  unfold components
  split
  · simp [*]
  · simp [*]
  · rename_i rest hsplit
    rw [hsplit, List.map_cons, List.sum_cons, sum_count_component]
    simp [Component.name]
  · rename_i rest hsplit
    rw [hsplit, List.map_cons, List.sum_cons, sum_count_component]
    simp [Component.name]
  · exact sum_count_component _

theorem cutAtNul_injective : Function.Injective cutAtNul := by
  intro a b h
  have hflatten := congrArg (fun pieces => (pieces.map (· ++ ['\x00'])).flatten) h
  simp only [cutAtNul, flatten_splitOn] at hflatten
  exact String.toList_inj.mp (List.append_cancel_right hflatten)

/-- Entries with their paths in one order, and the same pieces, are in one order. -/
theorem eq_of_pieces {cs cs' : List Content}
    (hkeys : cs.map (·.1.components) = cs'.map (·.1.components)) (hperm : cs.Perm cs') (hpaths : (cs'.map (·.1)).Nodup)
    (hpieces : (cs.flatMap contentFields).flatMap cutAtNul = (cs'.flatMap contentFields).flatMap cutAtNul) :
    cs = cs' := by
  induction cs generalizing cs' with
  | nil => exact (List.perm_nil.mp hperm.symm).symm
  | cons c cs ih =>
    rcases cs' with _ | ⟨c', cs'⟩
    · exact absurd hperm.length_eq (by simp)
    · rw [List.map_cons, List.map_cons, List.cons.injEq] at hkeys
      obtain ⟨hkey, hkeys⟩ := hkeys
      -- the path comes first, and has as many pieces in both
      have hlength : (cutAtNul c.1.text).length = (cutAtNul c'.1.text).length := by
        rw [cutAtNul, cutAtNul, length_splitOn, length_splitOn, ← PathBuf.count_nul, ← PathBuf.count_nul, hkey]
      have hcut : cutAtNul c.1.text = cutAtNul c'.1.text := by
        simp only [List.flatMap_cons, contentFields, List.cons_append] at hpieces
        exact List.append_inj_left hpieces hlength
      have hpath : c.1 = c'.1 := congrArg PathBuf.mk (cutAtNul_injective hcut)
      rw [List.map_cons, List.nodup_cons] at hpaths
      have hc : c = c' := by
        rcases List.mem_cons.mp (hperm.mem_iff.mp (List.mem_cons_self ..)) with hc | hc
        · exact hc
        · exact absurd (hpath ▸ List.mem_map_of_mem hc) hpaths.1
      subst hc
      rw [List.flatMap_cons, List.flatMap_cons, List.flatMap_append, List.flatMap_append] at hpieces
      rw [ih hkeys hperm.cons_inv hpaths.2 (List.append_cancel_left hpieces)]

/-! ### NULs in a text -/

/-- Pieces without NULs are those of some field. -/
theorem exists_cutAtNul {pieces : List (List Char)} (hne : pieces ≠ []) (h : ∀ piece ∈ pieces, '\x00' ∉ piece) :
    ∃ field, cutAtNul field = pieces :=
  ⟨String.ofList (['\x00'].intercalate pieces), by
    rw [cutAtNul, String.toList_ofList, List.splitOn_intercalate _ h hne]⟩

theorem nul_not_mem_of_mem_cutAtNul {field : String} : ∀ piece ∈ cutAtNul field, '\x00' ∉ piece :=
  fun _ => not_mem_of_mem_splitOn

/-- Fields one behind another are cut as one would be. -/
theorem exists_cutAtNul_eq_flatMap (field : String) (fs : List String) :
    ∃ whole, cutAtNul whole = (field :: fs).flatMap cutAtNul := by
  refine exists_cutAtNul ?_ fun piece hpiece => ?_
  · rw [List.flatMap_cons]
    exact List.append_ne_nil_of_left_ne_nil (List.splitOn_ne_nil _ _) _
  · obtain ⟨f, -, hpiece⟩ := List.mem_flatMap.mp hpiece
    exact nul_not_mem_of_mem_cutAtNul piece hpiece

theorem length_cutAtNul (field : String) : (cutAtNul field).length = field.toList.count '\x00' + 1 := length_splitOn _

/-- Two fields next to each other, with a NUL in one, are the pieces of two others. -/
theorem exists_other_fields {first second : String} (h : '\x00' ∈ first.toList ∨ '\x00' ∈ second.toList) :
    ∃ first' second', first' ≠ first ∧ cutAtNul first' ++ cutAtNul second' = cutAtNul first ++ cutAtNul second := by
  have hnul {k : Nat} : ∀ piece ∈ (cutAtNul first ++ cutAtNul second).take k ++ (cutAtNul first ++ cutAtNul second).drop k,
      '\x00' ∉ piece := by
    rw [List.take_append_drop]
    exact fun piece hpiece => (List.mem_append.mp hpiece).elim (nul_not_mem_of_mem_cutAtNul piece)
      (nul_not_mem_of_mem_cutAtNul piece)
  have hlength : 3 ≤ (cutAtNul first ++ cutAtNul second).length := by
    rw [List.length_append, length_cutAtNul, length_cutAtNul]
    rcases h with h | h
    · have := List.count_pos_iff.mpr h
      omega
    · have := List.count_pos_iff.mpr h
      omega
  -- the first field ends at the first NUL, or at the second if it ended at the first
  obtain ⟨k, hpos, hlt, hk⟩ : ∃ k, 0 < k ∧ k < (cutAtNul first ++ cutAtNul second).length ∧ k ≠ (cutAtNul first).length := by
    by_cases hone : (cutAtNul first).length = 1
    · exact ⟨2, by omega, by omega, by omega⟩
    · exact ⟨1, by omega, by omega, fun h => hone h.symm⟩
  obtain ⟨first', hfirst⟩ := exists_cutAtNul (List.ne_nil_of_length_pos (by rw [List.length_take]; omega))
    fun piece hpiece => hnul (k := k) piece (List.mem_append_left _ hpiece)
  obtain ⟨second', hsecond⟩ := exists_cutAtNul (List.ne_nil_of_length_pos (by rw [List.length_drop]; omega))
    fun piece hpiece => hnul (k := k) piece (List.mem_append_right _ hpiece)
  refine ⟨first', second', fun heq => hk ?_, by rw [hfirst, hsecond, List.take_append_drop]⟩
  rw [← heq, hfirst, List.length_take]
  omega

/-- An entry with a NUL behind its path is read as another, which does the same to the same path, and is no rename from
another source unless the NUL is in the source. -/
theorem exists_other_content {c : Content} (h : ∃ f ∈ textFields c, '\x00' ∈ f.toList) :
    ∃ c', deed c' = deed c ∧ ((∀ f ∈ headFields c, '\x00' ∉ f.toList) → headFields c' = headFields c) ∧ c' ≠ c ∧
      (contentFields c').flatMap cutAtNul = (contentFields c).flatMap cutAtNul := by
  obtain ⟨path, operation, original, modified⟩ := c
  by_cases htexts : '\x00' ∈ original.toList ∨ '\x00' ∈ modified.toList
  · obtain ⟨original', modified', hne, hcut⟩ := exists_other_fields htexts
    refine ⟨(path, operation, original', modified'), rfl, fun _ => rfl, fun heq => hne ?_, ?_⟩
    · simpa using congrArg (fun c : Content => c.2.2.1) heq
    · simpa [contentFields, textFields] using hcut
  · -- the NUL is in the source of a rename
    rw [not_or] at htexts
    rcases operation with _ | _ | _ | ⟨⟨origin⟩⟩ <;> simp [textFields, FileOperation.fields, htexts] at h
    obtain ⟨origin', original', hne, hcut⟩ := exists_other_fields (Or.inl h : _ ∨ '\x00' ∈ original.toList)
    refine ⟨(path, .rename ⟨origin'⟩, original', modified), rfl, fun hhead => ?_, fun heq => hne ?_, ?_⟩
    · exact absurd h (hhead origin (by simp [headFields, FileOperation.fields]))
    · simpa using congrArg (fun c : Content => c.2.1) heq
    · have hcut := congrArg (· ++ cutAtNul modified) hcut
      simpa [contentFields, textFields, FileOperation.fields] using hcut

section Pieces

variable {fs fs' : List String}

theorem length_flatMap_cutAtNul_le
    (h : List.Forall₂ (fun f f' => (cutAtNul f).length ≤ (cutAtNul f').length) fs fs') :
    (fs.flatMap cutAtNul).length ≤ (fs'.flatMap cutAtNul).length := by
  induction h with
  | nil => exact le_rfl
  | cons hhead _ ih =>
    rw [List.flatMap_cons, List.flatMap_cons, List.length_append, List.length_append]
    exact Nat.add_le_add hhead ih

/-- Fields with as many pieces as others or fewer, and the same pieces, are those. -/
theorem eq_of_flatMap_cutAtNul (h : List.Forall₂ (fun f f' => (cutAtNul f).length ≤ (cutAtNul f').length) fs fs')
    (hpieces : fs.flatMap cutAtNul = fs'.flatMap cutAtNul) : fs = fs' := by
  induction h with
  | nil => rfl
  | @cons f f' fs fs' hhead htail ih =>
    rw [List.flatMap_cons, List.flatMap_cons] at hpieces
    have hlength : (cutAtNul f).length = (cutAtNul f').length := by
      have hsum := congrArg List.length hpieces
      have hrest := length_flatMap_cutAtNul_le htail
      rw [List.length_append, List.length_append] at hsum
      omega
    obtain ⟨hcut, hrest⟩ := List.append_inj hpieces hlength
    rw [cutAtNul_injective hcut, ih hrest]

end Pieces

theorem cutAtNul_eq_singleton {field : String} (h : '\x00' ∉ field.toList) : cutAtNul field = [field.toList] :=
  List.splitOn_eq_singleton h

/-- Every entry has a piece. -/
theorem pieces_ne_nil (c : Content) (cs : List Content) : ((c :: cs).flatMap contentFields).flatMap cutAtNul ≠ [] := by
  rw [List.flatMap_cons, contentFields, List.cons_append, List.flatMap_cons]
  exact List.append_ne_nil_of_left_ne_nil (List.splitOn_ne_nil _ _) _

/-- The pieces of an entry begin with its path and its operation, where these have no NULs. -/
theorem exists_pieces_eq_cons {c : Content} (h : ∀ f ∈ headFields c, '\x00' ∉ f.toList) :
    ∃ word more, c.2.1.fields.head? = some word ∧
      (contentFields c).flatMap cutAtNul = c.1.text.toList :: word.toList :: more := by
  obtain ⟨path, operation, original, modified⟩ := c
  obtain ⟨word, rest, hfields⟩ : ∃ word rest, operation.fields = word :: rest := by
    cases operation <;> exact ⟨_, _, rfl⟩
  have hpath := h path.text (List.mem_cons_self ..)
  have hword := h word (List.mem_cons_of_mem _ (by rw [hfields]; exact List.mem_cons_self ..))
  refine ⟨word, (rest ++ [original, modified]).flatMap cutAtNul, by rw [hfields]; rfl, ?_⟩
  rw [contentFields, textFields, hfields, List.flatMap_cons, List.cons_append, List.flatMap_cons,
    cutAtNul_eq_singleton hpath, cutAtNul_eq_singleton hword]
  rfl

/-- An entry without NULs behind its path has no more pieces than one that does the same. -/
theorem forall₂_contentFields {c c' : Content} (hdeed : deed c = deed c') (h : ∀ f ∈ textFields c, '\x00' ∉ f.toList) :
    List.Forall₂ (fun f f' => (cutAtNul f).length ≤ (cutAtNul f').length) (contentFields c) (contentFields c') := by
  have hone {f : String} (hf : f ∈ textFields c) (f' : String) : (cutAtNul f).length ≤ (cutAtNul f').length := by
    rw [length_cutAtNul, length_cutAtNul, List.count_eq_zero.mpr (h f hf)]
    omega
  obtain ⟨path, operation, original, modified⟩ := c
  obtain ⟨path', operation', original', modified'⟩ := c'
  obtain ⟨rfl, hhead⟩ := Prod.mk.inj hdeed
  refine .cons le_rfl ?_
  rcases operation with _ | _ | _ | origin <;> rcases operation' with _ | _ | _ | origin' <;>
    simp [FileOperation.fields] at hhead
  all_goals simp [textFields, FileOperation.fields] at hone ⊢
  all_goals grind

/-- The path and the operation come first. -/
theorem deed_eq_of_pieces {c c' : Content} {rest rest' : List (List Char)} (h : ∀ f ∈ headFields c, '\x00' ∉ f.toList)
    (h' : ∀ f ∈ headFields c', '\x00' ∉ f.toList)
    (hpieces : (contentFields c).flatMap cutAtNul ++ rest = (contentFields c').flatMap cutAtNul ++ rest') :
    deed c = deed c' := by
  obtain ⟨word, more, hword, heq⟩ := exists_pieces_eq_cons h
  obtain ⟨word', more', hword', heq'⟩ := exists_pieces_eq_cons h'
  rw [heq, heq', List.cons_append, List.cons_append, List.cons_append, List.cons_append, List.cons.injEq,
    List.cons.injEq, String.toList_inj, String.toList_inj] at hpieces
  obtain ⟨hpath, hop, -⟩ := hpieces
  rw [deed, deed, hword, hword', hop, show c.1 = c'.1 from congrArg PathBuf.mk hpath]

/-! ### The result -/

/-- Every text is what is left of one whose ends of lines are two characters. -/
theorem replaceCrlf_surjective : Function.Surjective replaceCrlf := by
  have hgo (cs : List Char) : ∃ raw : List Char, raw.head? ≠ some '\n' ∧ replaceCrlf.go raw = cs := by
    induction cs with
    | nil => exact ⟨[], nofun, rfl⟩
    | cons c cs ih =>
      obtain ⟨raw, hhead, rfl⟩ := ih
      by_cases hc : c = '\n'
      · subst hc
        exact ⟨'\r' :: '\n' :: raw, by simp, rfl⟩
      · refine ⟨c :: raw, by simpa using hc, ?_⟩
        rw [replaceCrlf.go]
        rintro rest - rfl
        exact hhead rfl
  intro text
  obtain ⟨raw, -, hraw⟩ := hgo text.toList
  exact ⟨String.ofList raw, by rw [replaceCrlf, String.toList_ofList, hraw, String.ofList_toList]⟩

/-- Whatever is to be said, a patch says it. -/
theorem NvPatch.exists_contents (cs : List Content) : ∃ p : NvPatch, p.contents = cs := by
  have hentry : Function.Surjective FilePatch.content := by
    rintro ⟨path, operation, original, modified⟩
    obtain ⟨original, rfl⟩ := replaceCrlf_surjective original
    obtain ⟨modified, rfl⟩ := replaceCrlf_surjective modified
    exact ⟨⟨path, operation, original, modified, "", ""⟩, rfl⟩
  obtain ⟨files, rfl⟩ := List.map_surjective_iff.mpr hentry cs
  exact ⟨⟨"", none, files⟩, rfl⟩

section Result

variable {sha256Hex : String → String} {p p' : NvPatch}

namespace NvPatch

theorem sameContents_of_fields (h : p.fields = p'.fields) : p.SameContents p' := by
  intro c
  rw [← mem_sorted, ← mem_sorted, flatMap_fields_injective h]

/-- Patches with distinct paths that have the same contents have them in another order at most. -/
theorem SameContents.perm (h : p.SameContents p') (hpaths : p.Distinct) (hpaths' : p'.Distinct) :
    p.contents.Perm p'.contents :=
  (List.perm_ext_iff_of_nodup (List.Nodup.of_map _ (distinct_iff.mp hpaths))
    (List.Nodup.of_map _ (distinct_iff.mp hpaths'))).mpr h

/-- The entry that a path is spelled in. -/
theorem SpelledOnce.eq (h : p.SpelledOnce) {c d : Content} (hc : c ∈ p.contents) (hd : d ∈ p.contents)
    (hpath : c.1.components = d.1.components) : c = d :=
  List.inj_on_of_nodup_map (spelledOnce_iff.mp h) hc hd hpath

/-- The same contents are sorted alike, where no path is spelled in two ways. -/
theorem SpelledOnce.sorted_eq (h : p.SpelledOnce) (hpaths : p.Distinct) (hpaths' : p'.Distinct)
    (hcontents : p.SameContents p') : p.sorted = p'.sorted := by
  have hmap := map_sorted_eq (fun c => c) (·.1.components) (fun _ => rfl) (fun _ hc _ hd => h.eq hc hd)
    ((hcontents.perm hpaths hpaths').map _)
  simpa using hmap

/-- A patch is told apart from another, if its paths are spelled in one way and the pieces of the two tell their fields. -/
theorem SpelledOnce.toldApart (h : p.SpelledOnce) (hsha : Function.Injective sha256Hex) (hpaths : p.Distinct)
    (hpaths' : p'.Distinct) (hfields : p.pieces = p'.pieces → p.fields = p'.fields) : p.ToldApart sha256Hex p' := by
  rw [ToldApart, canonicalHash_inj hsha]
  refine ⟨fun hpieces => sameContents_of_fields (hfields hpieces), fun hcontents => ?_⟩
  rw [pieces, pieces, fields, fields, h.sorted_eq hpaths hpaths' hcontents]

/-- Where there are no NULs, every piece is a field. -/
theorem NulFree.pieces_eq (h : p.NulFree) : p.pieces = p.fields.map String.toList := by
  rw [pieces, List.map_eq_flatMap]
  refine List.flatMap_congr fun f hf => ?_
  obtain ⟨c, hc, hf⟩ := List.mem_flatMap.mp hf
  exact List.splitOn_eq_singleton (h c (mem_sorted.mp hc) f hf)

theorem NulFree.fields_eq (h : p.NulFree) (h' : p'.NulFree) (hpieces : p.pieces = p'.pieces) : p.fields = p'.fields := by
  rw [h.pieces_eq, h'.pieces_eq] at hpieces
  exact List.map_injective_iff.mpr (fun a b hab => String.toList_inj.mp hab) hpieces

/-- Where there are no NULs behind the paths, the pieces tell the fields from those of patches that do the same. -/
theorem NulFreeTexts.fields_eq (h : p.NulFreeTexts) (hspelled : p.SpelledOnce) (hdeeds : p.SameDeeds p')
    (hpieces : p.pieces = p'.pieces) : p.fields = p'.fields := by
  have hsorted : p.sorted.map deed = p'.sorted.map deed :=
    map_sorted_eq deed (·.1.components) (fun _ => rfl)
      (fun _ hc _ hd hpath => congrArg deed (hspelled.eq hc hd hpath)) hdeeds
  have hmem : ∀ c ∈ p.sorted, ∀ f ∈ textFields c, '\x00' ∉ f.toList := fun c hc => h c (mem_sorted.mp hc)
  refine eq_of_flatMap_cutAtNul ?_ hpieces
  rw [fields, fields]
  generalize p.sorted = cs, p'.sorted = cs' at hsorted hmem
  induction cs generalizing cs' with
  | nil =>
    obtain rfl := List.map_eq_nil_iff.mp hsorted.symm
    exact .nil
  | cons c cs ih =>
    obtain ⟨c', cs', rfl, hc, hcs⟩ := List.map_eq_cons_iff.mp hsorted.symm
    obtain ⟨hnul, hmem⟩ := List.forall_mem_cons.mp hmem
    rw [List.flatMap_cons, List.flatMap_cons]
    exact List.rel_append (forall₂_contentFields hc.symm hnul) (ih cs' hcs.symm hmem)

/-- The entries in the opposite order. -/
def reversed (p : NvPatch) : NvPatch := { p with files := p.files.reverse }

theorem contents_reversed (p : NvPatch) : p.reversed.contents = p.contents.reverse := List.map_reverse

theorem Distinct.reversed (h : p.Distinct) : p.reversed.Distinct := by
  rw [distinct_iff, contents_reversed, List.map_reverse, List.nodup_reverse]
  exact distinct_iff.mp h

/-- What follows another entry for the same path follows it when sorted. -/
theorem pair_sublist_sorted {c d : Content} (h : [c, d].Sublist p.contents) (hpath : c.1.components = d.1.components) :
    [c, d].Sublist p.sorted := by
  rw [sorted_eq]
  exact List.pair_sublist_mergeSort (fun _ _ _ => PathBuf.le_trans) (fun _ _ => PathBuf.le_total _ _)
    (PathBuf.le_of_components hpath) h

/-- One hash means one order, where the contents are the same. -/
theorem sorted_eq_of_pieces (hpaths : p.Distinct) (hpaths' : p'.Distinct) (hcontents : p.SameContents p')
    (hpieces : p.pieces = p'.pieces) : p.sorted = p'.sorted := by
  have hperm := hcontents.perm hpaths hpaths'
  exact eq_of_pieces (components_sorted hperm) (p.sorted_perm.trans (hperm.trans p'.sorted_perm.symm)) hpaths'.sorted
    hpieces

/-- **A patch that is told apart from its reversal spells every path in one way.** -/
theorem spelledOnce_of_reversed (hsha : Function.Injective sha256Hex) (hpaths : p.Distinct)
    (h : p.ToldApart sha256Hex p.reversed) : p.SpelledOnce := by
  have hcontents : p.SameContents p.reversed := fun c => by rw [contents_reversed, List.mem_reverse]
  have hsorted := sorted_eq_of_pieces hpaths hpaths.reversed hcontents ((canonicalHash_inj hsha).mp (h.mpr hcontents))
  rw [spelledOnce_iff, List.nodup_iff_sublist]
  intro path hpath
  obtain ⟨pair, hpair, heq⟩ := List.sublist_map_iff.mp hpath
  obtain ⟨c, _, rfl, hc, hrest⟩ := List.map_eq_cons_iff.mp heq.symm
  obtain ⟨d, _, rfl, hd, hnil⟩ := List.map_eq_cons_iff.mp hrest
  obtain rfl := List.map_eq_nil_iff.mp hnil
  -- the two keep their order in both
  have hforth := pair_sublist_sorted hpair (hc.trans hd.symm)
  have hback : [d, c].Sublist p.sorted := by
    rw [hsorted]
    refine pair_sublist_sorted ?_ (hd.trans hc.symm)
    rw [contents_reversed]
    exact List.reverse_sublist.mpr hpair
  have hnodup : p.contents.Nodup := List.Nodup.of_map _ (distinct_iff.mp hpaths)
  have heq := (List.Nodup.perm_iff_eq_of_sublist ((sorted_perm p).nodup_iff.mpr hnodup) hforth hback).mp
    (List.Perm.swap d c [])
  rw [(List.cons.inj heq).1] at hpair
  exact List.nodup_iff_sublist.mp hnodup d hpair

/-- **A NUL behind a path is taken for the end of a field**: a patch that is told apart from all that do
the same to the same paths has none. -/
theorem nulFreeTexts_of_toldApart (hsha : Function.Injective sha256Hex) (hpaths : p.Distinct)
    (h : ∀ p' : NvPatch, p'.Distinct → p.SameDeeds p' → (p.NulFreePaths → p'.NulFreePaths) →
      p.ToldApart sha256Hex p') : p.NulFreeTexts := by
  by_contra hnul
  obtain ⟨c, hc, hnul⟩ : ∃ c ∈ p.contents, ∃ f ∈ textFields c, '\x00' ∈ f.toList := by
    simpa [NulFreeTexts] using hnul
  obtain ⟨c', hdeed, hhead, hne, hpieces⟩ := exists_other_content hnul
  -- the other entry takes the place of the first
  let other (d : Content) : Content := if d = c then c' else d
  have hother_deed (d : Content) : deed (other d) = deed d := by
    simp only [other]
    split_ifs with hd
    · rw [hd, hdeed]
    · rfl
  have hother_pieces (d : Content) : (contentFields (other d)).flatMap cutAtNul = (contentFields d).flatMap cutAtNul := by
    simp only [other]
    split_ifs with hd
    · rw [hd, hpieces]
    · rfl
  have hpath (d : Content) : (other d).1 = d.1 := (Prod.mk.inj (hother_deed d)).1
  obtain ⟨p', hp'⟩ := exists_contents (p.contents.map other)
  have hdeeds : p'.contents.map deed = p.contents.map deed := by
    rw [hp', List.map_map]
    exact List.map_congr_left fun d _ => hother_deed d
  have hpaths' : p'.Distinct := by
    rw [distinct_iff, hp', List.map_map]
    exact (List.map_congr_left fun d _ => hpath d) ▸ distinct_iff.mp hpaths
  have hsorted : p'.sorted = p.sorted.map other := by
    rw [sorted_eq, sorted_eq, hp']
    exact (List.map_mergeSort fun a _ b _ => by rw [hpath, hpath]).symm
  have hsame : p.pieces = p'.pieces := by
    rw [pieces, pieces, fields, fields, hsorted, List.flatMap_assoc, List.flatMap_assoc, List.flatMap_map]
    exact List.flatMap_congr fun d _ => (hother_pieces d).symm
  have hnames (hfree : p.NulFreePaths) : p'.NulFreePaths := by
    intro d hd
    rw [hp'] at hd
    obtain ⟨e, he, rfl⟩ := List.mem_map.mp hd
    simp only [other]
    split_ifs
    · rw [hhead (hfree c hc)]
      exact hfree c hc
    · exact hfree e he
  -- and the first is not there any more
  have hcontents := (h p' hpaths' (.of_eq hdeeds.symm) hnames).mp ((canonicalHash_inj hsha).mpr hsame)
  obtain ⟨d, -, hd⟩ := List.mem_map.mp (hp' ▸ (hcontents c).mp hc)
  simp only [other] at hd
  split_ifs at hd with hdc
  · exact hne hd
  · exact hdc hd

/-- A single entry is sorted. -/
theorem sorted_of_singleton {c : Content} (h : p.contents = [c]) : p.sorted = [c] := by
  rw [sorted_eq, h, List.mergeSort_singleton]

/-- **What follows an entry is taken for its text**: a patch that is told apart from all has one entry at most. -/
theorem length_le_one_of_toldApart (hsha : Function.Injective sha256Hex) (hpaths : p.Distinct) (hnul : p.NulFreePaths)
    (h : ∀ p' : NvPatch, p'.Distinct → p'.NulFreePaths → p.ToldApart sha256Hex p') : p.files.length ≤ 1 := by
  by_contra hlength
  rw [← length_sorted] at hlength
  obtain ⟨⟨path, operation, original, modified⟩, d, rest, hsorted⟩ : ∃ c d rest, p.sorted = c :: d :: rest := by
    generalize p.sorted = cs at hlength
    rcases cs with _ | ⟨c, _ | ⟨d, rest⟩⟩
    · exact absurd (Nat.zero_le 1) hlength
    · exact absurd le_rfl hlength
    · exact ⟨c, d, rest, rfl⟩
  -- the pieces from the new text of the first entry on are those of one text
  obtain ⟨modified', hmodified⟩ := exists_cutAtNul_eq_flatMap modified ((d :: rest).flatMap contentFields)
  obtain ⟨p', hp'⟩ := exists_contents [(path, operation, original, modified')]
  have hc : (path, operation, original, modified) ∈ p.contents := by
    rw [← mem_sorted, hsorted]
    exact List.mem_cons_self ..
  have hd : d ∈ p.contents := by
    rw [← mem_sorted, hsorted]
    exact List.mem_cons_of_mem _ (List.mem_cons_self ..)
  have hsame : p.pieces = p'.pieces := by
    rw [pieces, pieces, fields, fields, hsorted, sorted_of_singleton hp']
    simp [contentFields, textFields, hmodified]
  have hpaths' : p'.Distinct := by
    rw [distinct_iff, hp']
    exact List.nodup_singleton _
  have hnul' : p'.NulFreePaths := by
    intro c' hc'
    rw [hp', List.mem_singleton] at hc'
    have hhead := hnul _ hc
    rw [hc']
    exact hhead
  -- so that the second is the first
  have hcontents := (h p' hpaths' hnul').mp ((canonicalHash_inj hsha).mpr hsame)
  have hpath : d.1 = path := by
    have hd' := (hcontents d).mp hd
    rw [hp', List.mem_singleton] at hd'
    rw [hd']
  have hnodup := hpaths.sorted
  rw [hsorted] at hnodup
  simp [hpath] at hnodup

/-- The pieces of one entry, without NULs in it, are those of no other patch. -/
theorem NulFreeTexts.sameDeeds_of_pieces (hnul : p.NulFreeTexts) (hfree : p.NulFreePaths) (hfree' : p'.NulFreePaths)
    (hlength : p.files.length ≤ 1) (hpieces : p.pieces = p'.pieces) : p.SameDeeds p' := by
  have hsorted : p.sorted.map deed = p'.sorted.map deed := by
    have hmany : p.sorted.length ≤ 1 := by rwa [length_sorted]
    have hcontent : ∀ c ∈ p.sorted, c ∈ p.contents := fun c => mem_sorted.mp
    have hcontent' : ∀ c ∈ p'.sorted, c ∈ p'.contents := fun c => mem_sorted.mp
    rw [pieces, pieces, fields, fields] at hpieces
    generalize p.sorted = cs, p'.sorted = cs' at hpieces hmany hcontent hcontent'
    rcases cs with _ | ⟨c, cs⟩ <;> rcases cs' with _ | ⟨c', cs'⟩
    · rfl
    · exact absurd hpieces.symm (pieces_ne_nil c' cs')
    · exact absurd hpieces (pieces_ne_nil c cs)
    obtain rfl : cs = [] := List.length_eq_zero_iff.mp (by simpa using hmany)
    have hc := hcontent c (List.mem_cons_self ..)
    have hc' := hcontent' c' (List.mem_cons_self ..)
    rw [List.flatMap_cons, List.flatMap_cons, List.flatMap_append, List.flatMap_append] at hpieces
    have hdeed := deed_eq_of_pieces (hfree c hc) (hfree' c' hc') hpieces
    -- the operation tells how many pieces there are at least, so that nothing is left for another entry
    have hle := length_flatMap_cutAtNul_le (forall₂_contentFields hdeed (hnul c hc))
    have hcount := congrArg List.length hpieces
    rw [List.length_append, List.length_append] at hcount
    rcases cs' with _ | ⟨d, cs'⟩
    · rw [List.map_singleton, List.map_singleton, hdeed]
    · have hpos := List.length_pos_iff.mpr (pieces_ne_nil d cs')
      simp only [List.flatMap_nil, List.length_nil] at hcount
      omega
  exact ((p.sorted_perm.map deed).symm.trans (.of_eq hsorted)).trans (p'.sorted_perm.map deed)

theorem spelledOnce_of_length (h : p.files.length ≤ 1) : p.SpelledOnce := by
  rw [SpelledOnce]
  rcases hfiles : p.files with _ | ⟨f, _ | ⟨g, files⟩⟩
  · exact List.nodup_nil
  · exact List.nodup_singleton _
  · rw [hfiles] at h
    simp at h

end NvPatch

/-- **Which patches the canonical hash tells from others.** Among patches without NULs, just those that
spell every path in one way; among patches that do the same to the same paths, just those that have,
besides, no NUL behind a path; among all patches with no NUL in a path, just those with no NUL in a
text and one entry at most. -/
theorem canonicalHash_iff (hsha : Function.Injective sha256Hex) (hpaths : p.Distinct) :
    (p.NulFree →
      ((∀ p' : NvPatch, p'.Distinct → p'.NulFree → p.ToldApart sha256Hex p') ↔ p.SpelledOnce)) ∧
    ((∀ p' : NvPatch, p'.Distinct → p.SameDeeds p' → p.ToldApart sha256Hex p') ↔ p.NulFreeTexts ∧ p.SpelledOnce) ∧
    (p.NulFreePaths →
      ((∀ p' : NvPatch, p'.Distinct → p'.NulFreePaths → p.ToldApart sha256Hex p') ↔
        p.NulFreeTexts ∧ p.files.length ≤ 1)) := by
  refine ⟨fun hnul => ?_, ?_, fun hnul => ?_⟩
  · constructor
    · intro h
      refine NvPatch.spelledOnce_of_reversed hsha hpaths (h _ hpaths.reversed fun c hc => ?_)
      rw [NvPatch.contents_reversed, List.mem_reverse] at hc
      exact hnul c hc
    · exact fun h p' hpaths' hnul' => h.toldApart hsha hpaths hpaths' (hnul.fields_eq hnul')
  · constructor
    · intro h
      refine ⟨NvPatch.nulFreeTexts_of_toldApart hsha hpaths fun p' hpaths' hdeeds _ => h p' hpaths' hdeeds,
        NvPatch.spelledOnce_of_reversed hsha hpaths (h _ hpaths.reversed ?_)⟩
      rw [NvPatch.SameDeeds, NvPatch.contents_reversed, List.map_reverse]
      exact (List.reverse_perm _).symm
    · exact fun ⟨hnul, h⟩ p' hpaths' hdeeds => h.toldApart hsha hpaths hpaths' (hnul.fields_eq h hdeeds)
  · constructor
    · exact fun h => ⟨NvPatch.nulFreeTexts_of_toldApart hsha hpaths fun p' hpaths' _ hnames => h p' hpaths' (hnames hnul),
        NvPatch.length_le_one_of_toldApart hsha hpaths hnul h⟩
    · rintro ⟨htexts, hlength⟩ p' hpaths' hnul'
      have hspelled := NvPatch.spelledOnce_of_length hlength
      exact hspelled.toldApart hsha hpaths hpaths' fun hpieces =>
        htexts.fields_eq hspelled (htexts.sameDeeds_of_pieces hnul hnul' hlength hpieces) hpieces

end Result

/-! ### Examples -/

/-- Two new files. -/
def createBoth : NvPatch where
  id := "first"
  baseCommit := none
  files := [.create sampleSha256Hex ⟨"c"⟩ "text\r\n", .create sampleSha256Hex ⟨"d"⟩ "line\n"]

/-- The same two, the other way round, with another end of line. -/
def createBothReversed : NvPatch where
  id := "second"
  baseCommit := some "base"
  files := [.create sampleSha256Hex ⟨"d"⟩ "line\n", .create sampleSha256Hex ⟨"c"⟩ "text\n"]

/-- A modification with a NUL in its old text. -/
def nulInOriginal : NvPatch where
  id := "patch"
  baseCommit := none
  files := [.new sampleSha256Hex ⟨"c"⟩ "text\x00line" "word"]

/-- A modification with a NUL in its new text. -/
def nulInModified : NvPatch where
  id := "patch"
  baseCommit := none
  files := [.new sampleSha256Hex ⟨"c"⟩ "text" "line\x00word"]

/-- The two new files are told apart from the same ones; the NUL is not told apart from another, nor are the two new
files from all that may stand in one text. -/
theorem canonicalHash_iff_reversed : createBoth.ToldApart sampleSha256Hex createBothReversed ∧
    (¬ ∀ p' : NvPatch, p'.Distinct → nulInOriginal.SameDeeds p' → nulInOriginal.ToldApart sampleSha256Hex p') ∧
    ¬ ∀ p' : NvPatch, p'.Distinct → p'.NulFreePaths → createBoth.ToldApart sampleSha256Hex p' := by
  refine ⟨?_, ?_, ?_⟩
  · exact ((canonicalHash_iff sampleSha256Hex_injective (by decide)).1 (by decide +kernel)).mpr (by decide +kernel)
      createBothReversed (by decide) (by decide +kernel)
  · intro h
    have hnul : nulInOriginal.NulFreeTexts :=
      ((canonicalHash_iff sampleSha256Hex_injective (by decide)).2.1.mp h).1
    exact absurd hnul (by decide +kernel)
  · intro h
    have hone : createBoth.files.length ≤ 1 :=
      (((canonicalHash_iff sampleSha256Hex_injective (by decide)).2.2 (by decide +kernel)).mp h).2
    exact absurd hone (by decide)

/-- **The two are different patches with one hash.** -/
theorem nul_moves_field :
    ¬ ∀ (sha256Hex : String → String) (p p' : NvPatch), Function.Injective sha256Hex →
      p.Distinct → p'.Distinct → p.ToldApart sha256Hex p' := by
  intro h
  have hsame : nulInOriginal.canonicalHash sampleSha256Hex = nulInModified.canonicalHash sampleSha256Hex := by
    decide +kernel
  have hcontents := (h sampleSha256Hex nulInOriginal nulInModified sampleSha256Hex_injective (by decide) (by decide)).mp hsame
  have hmem : (⟨"c"⟩, .modify, "text\x00line", "word") ∈ nulInModified.contents :=
    (hcontents _).mp (by decide +kernel)
  exact absurd hmem (by decide +kernel)

end Nerve.Patch
