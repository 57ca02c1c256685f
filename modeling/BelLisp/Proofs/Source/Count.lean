import BelLisp.Proofs.Reader.Trimmed
import BelLisp.Proofs.Source.Progress

/-!
# How many blocks a load counts

A load without a limit counts its blocks (`eq_length_of_loadBlocks`). A block that can be read has
one form, except that a block without any is read as `nil` and counts all the same. Where the two
differ can be seen on the lines: only a line that starts with a semicolon is dropped, so a comment
behind blanks stays, and a block of nothing but such comments has no form (`forms_eq_nil_iff`). So
the count of a load is the number of forms in the file plus that of such blocks (`count_of_load`).
-/

set_option autoImplicit false

namespace BelLisp.Source

open Text (splitLines decodeUtf8 decodeUtf8From utf8Lead? utf8Follow)

/-! ## Lines without a token -/

/-- Has the line a comment and nothing else but blanks before it? -/
def isComment (line : List Char) : Bool := isRemark (line.dropWhile Text.isBlank)

/-- Of the lines that are not blank, those without a token are the comments. -/
theorem tokensOf_eq_nil_iff {line : List Char} (hline : '\n' ∉ line) (hgap : isGap line = false)
    (h : Scans line) : tokensOf line = [] ↔ isComment line = true := by
  -- the blanks in front only move the rest of the line
  have hscan : scanFrom 0 line =
      scanFrom (0 + (line.takeWhile Text.isBlank).length) (line.dropWhile Text.isBlank) := by
    rw [← scanFrom_blanks_append fun c hc => List.all_eq_true.1 List.all_takeWhile c hc,
      List.takeWhile_append_dropWhile]
  have hrest : '\n' ∉ line.dropWhile Text.isBlank := fun hmem =>
    hline ((List.dropWhile_sublist _).subset hmem)
  rw [tokensOf, hscan]
  rw [Scans, hscan] at h
  cases hremark : isComment line with
  | true => simp [scanFrom_of_isRemark hremark hrest]
  | false =>
      simp only [Bool.false_eq_true, iff_false]
      have hhead := List.head?_dropWhile_not Text.isBlank line
      rw [isComment] at hremark
      cases hdrop : line.dropWhile Text.isBlank with
      | nil =>
          have hblank : isGap line = true := by
            simpa [isGap] using List.dropWhile_eq_nil_iff.1 hdrop
          rw [hblank] at hgap
          cases hgap
      | cons c rest =>
          rw [hdrop] at h hhead hremark
          have hblank : Text.isBlank c = false := by simpa using hhead
          have hsemicolon : c ≠ ';' := by simpa [isRemark] using hremark
          exact tokens_scanFrom_cons_ne_nil hblank hsemicolon h

/-- Of the blocks that can be read, those without a form are comments, line by line. -/
theorem forms_eq_nil_iff {part : List (List Char)}
    (hpart : ∀ line ∈ part, '\n' ∉ line ∧ isGap line = false)
    (h : (readAll (String.ofList (blockText part))).fault = none) :
    (readAll (String.ofList (blockText part))).forms = [] ↔ part.all isComment = true := by
  have hscans := scans_of_readAll h
  rw [readAll_ofList hscans] at h ⊢
  have hlines := scans_blockText.1 hscans
  calc (readFormsFrom none .start (tokensOf (blockText part))).forms = []
    _ ↔ tokensOf (blockText part) = [] := by
        constructor
        · intro hforms
          exact (eq_nil_of_forms_eq_nil id h hforms).1
        · intro htokens
          rw [htokens]
          rfl
    _ ↔ ∀ line ∈ part, tokensOf line = [] := by
        rw [tokensOf_blockText hlines, List.flatMap_eq_nil_iff]
    _ ↔ part.all isComment = true := by
        rw [List.all_eq_true]
        apply forall₂_congr
        intro line hline
        exact tokensOf_eq_nil_iff (hpart line hline).1 (hpart line hline).2 (hlines line hline)

/-- The lines of a paragraph have no newline in them and are not blank. -/
theorem line_of_mem_paragraphs {text : List Char} (hreturn : '\r' ∉ text)
    (hmark : text.head? ≠ some '\ufeff') {part : List (List Char)}
    (hpart : part ∈ paragraphs (splitLines text)) {line : List Char} (hline : line ∈ part) :
    '\n' ∉ line ∧ isGap line = false := by
  have hmem : line ∈ (paragraphs (splitLines text)).flatten :=
    List.mem_flatten.2 ⟨part, hpart, hline⟩
  rw [paragraphs, flatten_runs, List.mem_filter, List.mem_filter, ← bodies_eq_rows,
    bodies_eq_map hmark] at hmem
  obtain ⟨⟨hbody, -⟩, hgap⟩ := hmem
  exact ⟨(bodies_splitLines hreturn).1 line hbody, by simpa [isGap] using hgap⟩

/-! ## Counting blocks and forms -/

theorem read_eq_ok {files : FileReader} {path : Path} {bytes : List UInt8}
    (hnull : path.text.toList.contains '\x00' = false) (h : files path = .ok bytes) :
    files.read path = .ok bytes := by
  rw [FileReader.read, hnull, h]
  rfl

/-- A load without a limit counts its blocks, each of which can be read. -/
theorem eq_length_of_loadBlocks {path : String} {ending : Option Text.Utf8Fault}
    {count total : Nat} {blocks : List String} {ctx : Context}
    (h : (loadBlocks path none ending count blocks ctx).outcome = .ok total) :
    ending = none ∧ total = count + blocks.length ∧ ∀ block ∈ blocks, ∃ d, read block = .ok d := by
  induction blocks generalizing count ctx with
  | nil =>
      cases ending with
      | none =>
          cases h
          exact ⟨rfl, rfl, by simp⟩
      | some fault => cases h
  | cons block blocks ih =>
      rcases evaluates_or_fails_block ctx block with
        ⟨form, value, hread, hvalue⟩ | ⟨fault, after, hfails⟩
      · rw [loadBlocks_of_ok rfl hread hvalue] at h
        obtain ⟨hending, htotal, hblocks⟩ := ih h
        refine ⟨hending, ?_, List.forall_mem_cons.2 ⟨⟨form, hread⟩, hblocks⟩⟩
        rw [htotal, List.length_cons]
        omega
      · rw [loadBlocks_of_fails rfl hfails] at h
        cases h

/-- There are as many blocks as there are forms in them and blocks without any. -/
theorem length_eq_forms_add_countP {blocks : List String}
    (h : ∀ block ∈ blocks, ∃ d, read block = .ok d) :
    blocks.length = (blocks.flatMap fun block => (readAll block).forms).length +
      blocks.countP fun block => (readAll block).forms.isEmpty := by
  induction blocks with
  | nil => rfl
  | cons block blocks ih =>
      obtain ⟨⟨d, hread⟩, hblocks⟩ := List.forall_mem_cons.1 h
      obtain ⟨-, hforms⟩ := read_eq_ok_iff.1 hread
      rw [List.length_cons, List.flatMap_cons, List.length_append, List.countP_cons, ih hblocks]
      rcases hforms with ⟨hforms, -⟩ | hforms
      · simp only [hforms, List.length_nil, List.isEmpty_nil, if_true]
        omega
      · simp only [hforms, List.length_singleton, List.isEmpty_cons, Bool.false_eq_true, if_false]
        omega

/-- A text whose blocks can be read has a block for each form, and one for each paragraph that is
all comments. -/
theorem length_blocks_eq {text : List Char} (hreturn : '\r' ∉ text)
    (hmark : text.head? ≠ some '\ufeff')
    (h : ∀ block ∈ (blocks (splitLines text)).map String.ofList, ∃ d, read block = .ok d) :
    (readAll (String.ofList text)).fault = none ∧
      (blocks (splitLines text)).length = (readAll (String.ofList text)).forms.length +
        (paragraphs (splitLines text)).countP (·.all isComment) := by
  have hfaults : ∀ block ∈ blocks (splitLines text),
      (readAll (String.ofList block)).fault = none := by
    intro block hblock
    obtain ⟨d, hread⟩ := h _ (List.mem_map_of_mem hblock)
    exact (read_eq_ok_iff.1 hread).1
  obtain ⟨hfault, hforms⟩ := readAll_of_blocks hreturn hmark hfaults
  refine ⟨hfault, ?_⟩
  have hlength := length_eq_forms_add_countP h
  rw [List.length_map, ← hforms] at hlength
  rw [hlength, Nat.add_left_cancel_iff, blocks_eq_map_paragraphs, List.countP_map, List.countP_map]
  -- what is left is to know a block without a form by its lines
  apply List.countP_congr
  intro part hpart
  rw [blocks_eq_map_paragraphs] at hfaults
  have hlines : ∀ line ∈ part, '\n' ∉ line ∧ isGap line = false := fun line hline =>
    line_of_mem_paragraphs hreturn hmark hpart hline
  rw [← forms_eq_nil_iff hlines (hfaults _ (List.mem_map_of_mem hpart)), ← List.isEmpty_iff]
  rfl

/-- **A load counts forms, and blocks that have none.** If a file without a byte-order mark can be
loaded to its end, its text can be read, and the count is the number of forms in it plus the number
of paragraphs in which every line is a comment behind blanks. So the count is the number of forms
exactly if every paragraph has a line that is no such comment. -/
theorem count_of_load {files : FileReader} {path : Path} {bytes : List UInt8} {ctx : Context}
    {count : Nat} (hread : files.read path = .ok bytes)
    (hmark : (textOfBytes bytes).toList.head? ≠ some '\ufeff')
    (h : (load files path none ctx).outcome = .ok count) :
    let reading := readAll (textOfBytes bytes)
    let parts := paragraphs (splitLines (textOfBytes bytes).toList)
    reading.fault = none ∧ count = reading.forms.length + parts.countP (·.all isComment) ∧
      (count = reading.forms.length ↔
        ∀ part ∈ parts, ∃ line ∈ part, isComment line = false) := by
  intro reading parts
  have hcount : reading.fault = none ∧
      count = reading.forms.length + parts.countP (·.all isComment) := by
    rw [load, hread] at h
    simp only [loadBytes] at h
    cases hblocks : blocksOfBytes bytes with
    | error fault =>
        rw [hblocks] at h
        cases h
    | ok source =>
        rcases source with ⟨found, ending⟩
        rw [hblocks] at h
        obtain ⟨rfl, hcount, hreads⟩ := eq_length_of_loadBlocks h
        obtain ⟨-, rfl⟩ := blocksOfBytes_eq_ok_none_iff.1 hblocks
        rw [textOfBytes, String.toList_ofList] at hmark
        rw [Nat.zero_add, List.length_map] at hcount
        simp only [reading, parts, textOfBytes, String.toList_ofList, hcount]
        exact length_blocks_eq (Text.return_not_mem_unifyNewlines _) hmark hreads
  refine ⟨hcount.1, hcount.2, ?_⟩
  rw [hcount.2, Nat.add_eq_left, List.countP_eq_zero]
  apply forall₂_congr
  intro part _
  simp

/-- The comment behind blanks is part of the first block, and the only line of the second. -/
theorem count_of_load_indented :
    let bytes : List UInt8 :=
      "(set a\n ; one\nb)\r\n\r\n ; two".toList.map fun c => UInt8.ofNat c.toNat
    let files : FileReader := fun _ => .ok bytes
    let path := Path.ofString "a.bel"
    let ctx := Context.fresh Registry.standard 9
    (load files path none ctx).outcome = .ok 2 ∧ (readAll (textOfBytes bytes)).fault = none ∧
      (readAll (textOfBytes bytes)).forms.length = 1 := by
  intro bytes files path ctx
  have hread : files.read path = .ok bytes := read_eq_ok (by decide +kernel) rfl
  have hmark : (textOfBytes bytes).toList.head? ≠ some '\ufeff' := by decide +kernel
  have hclean : (decodeUtf8 bytes).ending = .clean := by
    simp [bytes, decodeUtf8, decodeUtf8From, utf8Lead?, utf8Follow]
  have hblocks : textBlocks bytes = ["(set a\n ; one\nb)\n", " ; two\n"] := by decide +kernel
  have hfirst : read "(set a\n ; one\nb)\n" = .ok (.ofList [.sym "set", .sym "a", .sym "b"]) := by
    cbv
  have hsecond : read " ; two\n" = .ok .nil := by cbv
  have hload : (load files path none ctx).outcome = .ok 2 := by
    rw [load_of_clean hread hclean, hblocks]
    exact (loadBlocks_of_evaluates_attempted
      (.cons hfirst rfl (.cons hsecond rfl (.nil _)))).1
  have hparts : (paragraphs (splitLines (textOfBytes bytes).toList)).countP (·.all isComment) =
      1 := by decide +kernel
  obtain ⟨hfault, hcount, -⟩ := count_of_load hread hmark hload
  rw [hparts] at hcount
  exact ⟨hload, hfault, Nat.succ.inj hcount.symm⟩

/-- A comment behind blanks is a block of its own and counts, though the text has no form. -/
theorem not_forall_count_eq_forms :
    ¬ ∀ (files : FileReader) (path : Path) (bytes : List UInt8) (ctx : Context) (count : Nat),
      files.read path = .ok bytes → (textOfBytes bytes).toList.head? ≠ some '\ufeff' →
      (load files path none ctx).outcome = .ok count →
      count = (readAll (textOfBytes bytes)).forms.length := by
  intro hall
  let bytes : List UInt8 := " ; note".toList.map fun c => UInt8.ofNat c.toNat
  let files : FileReader := fun _ => .ok bytes
  let path := Path.ofString "a.bel"
  let ctx := Context.fresh Registry.standard 9
  have hread : files.read path = .ok bytes := read_eq_ok (by decide +kernel) rfl
  have hmark : (textOfBytes bytes).toList.head? ≠ some '\ufeff' := by decide +kernel
  have hclean : (decodeUtf8 bytes).ending = .clean := by
    simp [bytes, decodeUtf8, decodeUtf8From, utf8Lead?, utf8Follow]
  have hblocks : textBlocks bytes = [" ; note\n"] := by decide +kernel
  have hblock : read " ; note\n" = .ok .nil := by cbv
  have hload : (load files path none ctx).outcome = .ok 1 := by
    rw [load_of_clean hread hclean, hblocks]
    exact (loadBlocks_of_evaluates_attempted (.cons hblock rfl (.nil _))).1
  have htext : textOfBytes bytes = " ; note" := by decide +kernel
  have hforms : readAll " ; note" = ⟨[], none, []⟩ := by cbv
  have hcount := hall files path bytes ctx 1 hread hmark hload
  rw [htext, hforms] at hcount
  cases hcount

end BelLisp.Source
