import Nerve.Patch.DiffRoundTrip

/-!
# Reading back the paths

`to_unified_diff` writes a path as it is, after `a/` or `b/` in a header and bare in the lines of a
rename. The reader takes the first word of what it finds, and then an `a/` or `b/` away from it,
wherever it stands. So a path comes back as it is just if it is one word, which for the lines of a
rename must not begin with either (`readBack_iff`).

The paths are those without control characters, quotes or backslashes, which are written without any
escapes.
-/

namespace Nerve.Patch

open Nerve.Text Nerve.LineDiff

/-- `char::is_control`. -/
def isControl (c : Char) : Bool := c.toNat < 0x20 || (0x7F ≤ c.toNat && c.toNat < 0xA0)

/-- A safe relative path that needs no escapes. -/
structure PathBuf.Ordinary (p : PathBuf) : Prop where
  safe : ensureSafeRelativePath p = .ok ()
  characters : ∀ c ∈ p.text.toList, isControl c = false ∧ c ≠ '"' ∧ c ≠ '\\'

/-- No `a/` or `b/` at the beginning. -/
def PathBuf.Sideless (p : PathBuf) : Prop := ¬ "a/".toList <+: p.text.toList ∧ ¬ "b/".toList <+: p.text.toList

/-- What is written of the entries on a path is read back as that path: by the headers of those with
content, and by the lines of the renames without. -/
structure PathBuf.ReadBack (p : PathBuf) : Prop where
  headers : ∀ (textDiff : TextDiff) (hunks : List (Hunk Line)) (f : FilePatch),
    CorrectDiff textDiff f.original f.modified hunks → f.isPureRename = false → (∀ q ∈ f.changedPaths, q.Ordinary) →
      ∃ first second rest, splitInclusive '\n' (f.toUnifiedDiff textDiff).toList = first :: second :: rest ∧
        (f.oldPath = some p → parseFileHeader first "--- " = some (some p)) ∧
        (f.newPath = some p → parseFileHeader second "+++ " = some (some p))
  renames : ∀ (textDiff : TextDiff) (f : FilePatch), f.isPureRename = true → (∀ q ∈ f.changedPaths, q.Ordinary) →
    (f.oldPath = some p →
      parseRenamePath (splitInclusive '\n' (f.toUnifiedDiff textDiff).toList) "rename from " = .ok (some p)) ∧
    (f.newPath = some p →
      parseRenamePath (splitInclusive '\n' (f.toUnifiedDiff textDiff).toList) "rename to " = .ok (some p))

namespace PathBuf.Ordinary

variable {p : PathBuf}

theorem ne_nil (hp : p.Ordinary) : p.text.toList ≠ [] := by
  intro hnil
  have hsafe := hp.safe
  rw [ensureSafeRelativePath, String.toList_eq_nil_iff.mp hnil] at hsafe
  cases hsafe

theorem not_mem (hp : p.Ordinary) {c : Char} (hc : isControl c = true) : c ∉ p.text.toList := by
  intro hmem
  rw [(hp.characters c hmem).1] at hc
  cases hc

/-- The line's end is taken away, and nothing of the path. -/
theorem trimLineEnd (hp : p.Ordinary) (start : List Char) :
    trimLineEnd (start ++ p.text.toList ++ ['\n']) = start ++ p.text.toList := by
  refine trimLineEnd_concat fun c hc => ?_
  rw [List.getLast?_append_of_ne_nil _ hp.ne_nil] at hc
  have hmem := List.mem_of_getLast? hc
  constructor
  · rintro rfl
    exact hp.not_mem (by decide) hmem
  · rintro rfl
    exact hp.not_mem (by decide) hmem

theorem ne_null (hp : p.Ordinary) : p.text ≠ "/dev/null" := by
  obtain ⟨text⟩ := p
  rintro rfl
  have hsafe := hp.safe
  revert hsafe
  decide

end PathBuf.Ordinary

/-! ### The token -/

/-- The token of a text that begins with a word is the word. -/
theorem parseDiffPathToken_head {c : Char} {s : List Char} (hc : isWhitespace c = false) (hquote : c ≠ '"') :
    ∃ word rest, c :: s = word ++ rest ∧ Text.IsWord word ∧ (∀ d ∈ rest.head?, isWhitespace d = true) ∧
      parseDiffPathToken (c :: s) = some word := by
  obtain ⟨word, rest, hslice, hword, hrest, hhead⟩ := head_splitWhitespace (s := s) hc
  refine ⟨word, rest, hslice, hword, hrest, ?_⟩
  unfold parseDiffPathToken
  split
  · rename_i heq
    exact absurd (List.cons.inj heq).1 hquote
  · exact hhead

/-- The path is never longer than the token, and as long only where nothing was taken away. -/
theorem normalizeDiffPath_eq_ok {token : List Char} {p : PathBuf} (h : normalizeDiffPath token = .ok (some p)) :
    p.text.toList = token ∧ p.Sideless ∨ token = 'a' :: '/' :: p.text.toList ∨ token = 'b' :: '/' :: p.text.toList := by
  have hnull : token ≠ "/dev/null".toList := by
    rintro rfl
    cases h
  have htext : p.text.toList =
      (stripPrefix "a/".toList token <|> stripPrefix "b/".toList token).getD token := by
    simp only [normalizeDiffPath, if_neg hnull] at h
    split_ifs at h
    obtain rfl := Option.some.inj (Except.ok.inj h)
    exact String.toList_ofList
  have hnot {start : List Char} (hstart : stripPrefix start token = none) : ¬ start <+: token := by
    intro hprefix
    rw [stripPrefix, if_pos (List.isPrefixOf_iff_prefix.mpr hprefix)] at hstart
    cases hstart
  rcases ha : stripPrefix "a/".toList token with _ | rest
  · rcases hb : stripPrefix "b/".toList token with _ | rest
    · rw [ha, hb] at htext
      have hself : p.text.toList = token := htext
      refine Or.inl ⟨hself, ?_⟩
      rw [PathBuf.Sideless, hself]
      exact ⟨hnot ha, hnot hb⟩
    · rw [ha, hb] at htext
      have hrest : p.text.toList = rest := htext
      rw [hrest]
      exact Or.inr (Or.inr (eq_append_of_stripPrefix hb))
  · rw [ha] at htext
    have hrest : p.text.toList = rest := htext
    rw [hrest]
    exact Or.inr (Or.inl (eq_append_of_stripPrefix ha))

/-! ### Headers -/

/-- **A header is read back just if its path is one word.** -/
theorem parseFileHeader_iff (start : String) {side : Char} (hside : side = 'a' ∨ side = 'b') {p : PathBuf}
    (hp : p.Ordinary) :
    parseFileHeader (start.toList ++ headerPath side (some p) ++ ['\n']) start = some (some p) ↔ p.IsWord := by
  constructor
  · intro h
    have hspace : isWhitespace side = false := by rcases hside with rfl | rfl <;> decide
    have hquote : side ≠ '"' := by rcases hside with rfl | rfl <;> decide
    obtain ⟨word, rest, hslice, hword, hrest, htoken⟩ := parseDiffPathToken_head (s := '/' :: p.text.toList) hspace hquote
    have hline : trimLineEnd (start.toList ++ headerPath side (some p) ++ ['\n']) =
        start.toList ++ side :: '/' :: p.text.toList := by
      have := hp.trimLineEnd (start.toList ++ [side, '/'])
      simpa [headerPath] using this
    rw [parseFileHeader, hline, stripPrefix_append, Option.bind_some, trimStart_of_head hspace, htoken,
      Option.bind_some] at h
    have hnormal : normalizeDiffPath word = .ok (some p) := by
      rcases hresult : normalizeDiffPath word with e | path
      · rw [hresult] at h
        cases h
      · rw [hresult] at h
        cases h
        rfl
    -- The word goes on behind the side, and is as long as the whole.
    obtain ⟨tail, rfl⟩ : ∃ tail, word = side :: '/' :: tail := by
      rcases word with _ | ⟨x, _ | ⟨y, tail⟩⟩
      · exact absurd rfl hword.1
      · simp only [List.cons_append, List.nil_append, List.cons.injEq] at hslice
        cases hrest '/' (by rw [← hslice.2]; rfl)
      · simp only [List.cons_append, List.cons.injEq] at hslice
        exact ⟨tail, by rw [hslice.1, hslice.2.1]⟩
    have htail : p.text.toList = tail := by
      rcases normalizeDiffPath_eq_ok hnormal with ⟨htext, hnot⟩ | htext | htext
      · rcases hside with rfl | rfl
        · exact absurd (htext ▸ ⟨tail, rfl⟩) hnot.1
        · exact absurd (htext ▸ ⟨tail, rfl⟩) hnot.2
      · exact ((List.cons.inj (List.cons.inj htext).2).2).symm
      · exact ((List.cons.inj (List.cons.inj htext).2).2).symm
    exact ⟨hp.ne_nil, fun c hc => hword.2 c (by rw [← htail]; exact List.mem_cons_of_mem _ (List.mem_cons_of_mem _ hc))⟩
  · intro hword
    exact parseFileHeader_render start hside fun q hq => Option.some.inj hq ▸ hword

/-! ### Lines of renames -/

/-- **The line of a rename is read back just if its path is one word**, and begins with no side. -/
theorem readToken_iff {p : PathBuf} (hp : p.Ordinary) :
    (parseDiffPathToken (trimStart p.text.toList)).map normalizeDiffPath = some (.ok (some p)) ↔
      p.IsWord ∧ p.Sideless := by
  constructor
  · intro h
    obtain ⟨token, htoken, hnormal⟩ := Option.map_eq_some_iff.mp h
    obtain ⟨blank, hblank, htext⟩ : ∃ blank, (∀ c ∈ blank, isWhitespace c = true) ∧
        p.text.toList = blank ++ trimStart p.text.toList :=
      ⟨_, fun _ hc => List.mem_takeWhile_imp hc, List.takeWhile_append_dropWhile.symm⟩
    rcases htrim : trimStart p.text.toList with _ | ⟨c, s⟩
    · rw [htrim] at htoken
      cases htoken
    have hc : isWhitespace c = false := by
      have := List.head?_dropWhile_not isWhitespace p.text.toList
      rw [← trimStart, htrim] at this
      simpa using this
    have hquote : c ≠ '"' := (hp.characters c (by rw [htext, htrim]; simp)).2.1
    rw [htrim] at htoken htext
    obtain ⟨word, rest, hslice, hword, -, hhead⟩ := @parseDiffPathToken_head c s hc hquote
    obtain rfl := Option.some.inj (hhead.symm.trans htoken)
    -- What is read is no longer than the word, which is a part of the path.
    have hlength : p.text.toList.length = blank.length + (word.length + rest.length) := by
      rw [htext, hslice, List.length_append, List.length_append]
    rcases normalizeDiffPath_eq_ok hnormal with ⟨hself, hnot⟩ | hself | hself
    · exact ⟨by rw [PathBuf.IsWord, hself]; exact hword, hnot⟩
    · have := congrArg List.length hself
      simp only [List.length_cons] at this
      omega
    · have := congrArg List.length hself
      simp only [List.length_cons] at this
      omega
  · rintro ⟨hword, hnot⟩
    have hplain : p.IsPlain := by
      refine ⟨hword, fun hhead => (hp.characters '"' (List.mem_of_head? hhead)).2.1 rfl, ?_, ?_⟩
      · exact if_neg fun h => hnot.1 (List.isPrefixOf_iff_prefix.mp h)
      · exact if_neg fun h => hnot.2 (List.isPrefixOf_iff_prefix.mp h)
    obtain ⟨htoken, hnormal⟩ := parsePlainPath hplain hp.ne_null
    rw [htoken, Option.map_some, hnormal]

/-- What the reader finds behind the beginning of the line. -/
theorem parseRenamePath_eq_ok {block : List Line} {start : String} {p : PathBuf}
    (hline : findLine block start = some p.text.toList) :
    parseRenamePath block start = .ok (some p) ↔
      (parseDiffPathToken (trimStart p.text.toList)).map normalizeDiffPath = some (.ok (some p)) := by
  simp only [parseRenamePath, hline]
  rcases parseDiffPathToken (trimStart p.text.toList) with _ | token
  · simp [invalidDiff]
  · rcases hnormal : normalizeDiffPath token with e | path <;> simp [hnormal, orError, Except.mapError]

/-! ### What is written -/

section Written

variable {textDiff : TextDiff}

/-- A section with content begins with its two headers. -/
theorem splitInclusive_content {hunks : List (Hunk Line)} {f : FilePatch}
    (hdiff : CorrectDiff textDiff f.original f.modified hunks) (hcontent : f.isPureRename = false)
    (hpaths : ∀ q ∈ f.changedPaths, q.Ordinary) :
    ∃ rest, splitInclusive '\n' (f.toUnifiedDiff textDiff).toList =
      ("--- ".toList ++ headerPath 'a' f.oldPath ++ ['\n']) :: ("+++ ".toList ++ headerPath 'b' f.newPath ++ ['\n']) ::
        rest := by
  have hline {start : String} {side : Char} (hstart : '\n' ∉ start.toList) (hside : side = 'a' ∨ side = 'b')
      {path : Option PathBuf} (hpath : ∀ q ∈ path, q.Ordinary) : '\n' ∉ start.toList ++ headerPath side path := by
    cases path with
    | none => simpa [headerPath] using hstart
    | some q =>
      have hq := (hpath q rfl).not_mem (c := '\n') (by decide)
      rcases hside with rfl | rfl <;> simp [headerPath, hstart, hq]
  rw [@toUnifiedDiff_toList textDiff (fun _ _ => hunks) f fun _ => hdiff, FilePatch.sectionLines,
    if_neg (by rw [hcontent]; exact Bool.false_ne_true), FilePatch.contentLines, renderDiff, List.flatten_cons,
    List.flatten_cons]
  refine ⟨splitInclusive '\n' (hunks.flatMap renderHunk).flatten, ?_⟩
  rw [List.append_assoc _ ['\n'], List.singleton_append,
    splitInclusive_line (hline (by decide) (Or.inl rfl) fun q hq => hpaths q (FilePatch.oldPath_mem q hq)),
    List.append_assoc _ ['\n'], List.singleton_append,
    splitInclusive_line (hline (by decide) (Or.inr rfl) fun q hq => hpaths q (FilePatch.newPath_mem q hq))]

/-- A rename without content is written in four lines. -/
theorem splitInclusive_rename {f : FilePatch} (hrename : f.isPureRename = true)
    (hpaths : ∀ q ∈ f.changedPaths, q.Ordinary) :
    splitInclusive '\n' (f.toUnifiedDiff textDiff).toList = FilePatch.renameLines (f.validationPath false) f.path := by
  rw [changedPaths_of_isPureRename hrename] at hpaths
  have hnewline {q : PathBuf} (hq : q ∈ [f.validationPath false, f.path]) : '\n' ∉ q.text.toList :=
    (hpaths q hq).not_mem (by decide)
  rw [@toUnifiedDiff_toList textDiff (fun _ _ => []) f (fun h => by rw [hrename] at h; cases h), FilePatch.sectionLines,
    if_pos hrename, splitInclusive_flatten (isLine_renameLines (hnewline (by simp)) (hnewline (by simp)))]

end Written

/-! ### When a path is read back -/

theorem oldPath_of_isPureRename {f : FilePatch} (hrename : f.isPureRename = true) :
    f.oldPath = some (f.validationPath false) ∧ f.newPath = some f.path := by
  unfold FilePatch.isPureRename at hrename
  unfold FilePatch.oldPath FilePatch.newPath FilePatch.validationPath
  split at hrename
  · rename_i ho
    rw [ho]
    exact ⟨rfl, rfl⟩
  · cases hrename

/-- A rename of the path to itself, without content, is read back only then. -/
theorem PathBuf.ReadBack.isWord {p : PathBuf} (hp : p.Ordinary) (h : p.ReadBack) : p.IsWord ∧ p.Sideless := by
  let f : FilePatch := FilePatch.rename sampleSha256Hex p p "" ""
  have hf : f.isPureRename = true := rfl
  have hpaths : ∀ q ∈ f.changedPaths, q.Ordinary := by
    rw [changedPaths_of_isPureRename hf]
    simp only [List.mem_cons, List.not_mem_nil, or_false]
    rintro q (rfl | rfl) <;> exact hp
  have hread := (h.renames replaceTextDiff f hf hpaths).1 rfl
  rw [splitInclusive_rename hf hpaths] at hread
  have hline := (@findLine_renameLines p p hp.trimLineEnd hp.trimLineEnd []).1
  rw [List.append_nil] at hline
  exact (readToken_iff hp).mp ((parseRenamePath_eq_ok hline).mp hread)

/-- **A path is read back just if it is one word that begins with no `a/` or `b/`.** -/
theorem readBack_iff {p : PathBuf} (hp : p.Ordinary) : p.ReadBack ↔ p.IsWord ∧ p.Sideless := by
  constructor
  · exact PathBuf.ReadBack.isWord hp
  · rintro ⟨hword, hnot⟩
    refine ⟨fun textDiff hunks f hdiff hcontent hpaths => ?_, fun textDiff f hrename hpaths => ?_⟩
    · obtain ⟨rest, hlines⟩ := splitInclusive_content hdiff hcontent hpaths
      refine ⟨_, _, rest, hlines, fun hold => ?_, fun hnew => ?_⟩
      · rw [hold]
        exact (parseFileHeader_iff "--- " (Or.inl rfl) hp).mpr hword
      · rw [hnew]
        exact (parseFileHeader_iff "+++ " (Or.inr rfl) hp).mpr hword
    · rw [splitInclusive_rename hrename hpaths]
      obtain ⟨hold, hnew⟩ := oldPath_of_isPureRename hrename
      rw [changedPaths_of_isPureRename hrename] at hpaths
      have horigin := hpaths (f.validationPath false) (by simp)
      have hpath := hpaths f.path (by simp)
      obtain ⟨hfrom, hto⟩ := findLine_renameLines horigin.trimLineEnd hpath.trimLineEnd []
      rw [List.append_nil] at hfrom hto
      constructor
      · intro heq
        obtain rfl := Option.some.inj (hold.symm.trans heq)
        exact (parseRenamePath_eq_ok hfrom).mpr ((readToken_iff hp).mpr ⟨hword, hnot⟩)
      · intro heq
        obtain rfl := Option.some.inj (hnew.symm.trans heq)
        exact (parseRenamePath_eq_ok hto).mpr ((readToken_iff hp).mpr ⟨hword, hnot⟩)

theorem ordinary_of_all {p : PathBuf} (hsafe : ensureSafeRelativePath p = .ok ())
    (h : (p.text.toList.all fun c => !isControl c && c != '"' && c != '\\') = true) : p.Ordinary := by
  refine ⟨hsafe, fun c hc => ?_⟩
  have := List.all_eq_true.mp h c hc
  simpa [and_assoc] using this

theorem readBack_source : PathBuf.ReadBack ⟨"src/lib.rs"⟩ :=
  (readBack_iff (ordinary_of_all (by decide) (by decide))).mpr
    ⟨Text.isWord_of_all (by decide), by unfold PathBuf.Sideless; decide⟩

/-- **A path with a space is not,** nor is one in a directory `a`, whose rename is read as that of
another file. -/
theorem not_readBack_space :
    (PathBuf.Ordinary ⟨"my file"⟩ ∧ ¬ PathBuf.ReadBack ⟨"my file"⟩) ∧
      (PathBuf.Ordinary ⟨"a/lib.rs"⟩ ∧ ¬ PathBuf.ReadBack ⟨"a/lib.rs"⟩) ∧
      parseRenamePath (splitInclusive '\n' ((FilePatch.rename sampleSha256Hex ⟨"a/lib.rs"⟩ ⟨"c"⟩ "" "").toUnifiedDiff
        replaceTextDiff).toList) "rename from " = .ok (some ⟨"lib.rs"⟩) := by
  have hspace : PathBuf.Ordinary ⟨"my file"⟩ := ordinary_of_all (by decide) (by decide)
  have hside : PathBuf.Ordinary ⟨"a/lib.rs"⟩ := ordinary_of_all (by decide) (by decide)
  refine ⟨⟨hspace, fun h => ?_⟩, ⟨hside, fun h => ?_⟩, by decide +kernel⟩
  · have := (h.isWord hspace).1.2 ' ' (by decide)
    exact absurd this (by decide)
  · exact (h.isWord hside).2.1 (by decide)

end Nerve.Patch
