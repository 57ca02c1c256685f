import BelLisp.Reader.Token

/-!
# Scanning one token at a time

Where a token starts, the scanner cuts exactly that token off and goes on behind it: a bracket by
itself, a symbol or a character as far as its letters go (`scanFrom_symbol`, `scanFrom_char`). What
it hands out in turn consists of such tokens only (`legible_of_mem_scanFrom`).

`Text.IsPlain` says which texts can stand in a token, in terms of blanks and marks and without the
scanner's own classes of letters.
-/

set_option autoImplicit false

namespace BelLisp

/-- The text is not empty and has no blank and none of the marks in it. -/
def Text.IsPlain (marks text : String) : Prop :=
  text ≠ "" ∧ ∀ c ∈ text.toList, Text.isBlank c = false ∧ c ∉ marks.toList

/-- The marks that cannot stand in the name of a symbol. -/
def symbolMarks : String := "()\\'`;"

/-- The marks that cannot stand in the name of a character. -/
def charMarks : String := "()\\'`"

theorem isCharLetter_iff {c : Char} :
    isCharLetter c = true ↔ Text.isBlank c = false ∧ c ∉ charMarks.toList := by
  have hmarks : charMarks.toList = ['(', ')', '\\', '\x27', '\x60'] := rfl
  simp [isCharLetter, isDelimiter, isQuoteMark, hmarks, and_assoc]

theorem isSymbolLetter_iff {c : Char} :
    isSymbolLetter c = true ↔ Text.isBlank c = false ∧ c ∉ symbolMarks.toList := by
  have hmarks : symbolMarks.toList = ['(', ')', '\\', '\x27', '\x60', ';'] := rfl
  simp [isSymbolLetter, isDelimiter, isQuoteMark, hmarks, and_assoc]

theorem isPlain_ofList_iff {marks : String} {letters : List Char} :
    Text.IsPlain marks (String.ofList letters) ↔
      letters ≠ [] ∧ ∀ c ∈ letters, Text.isBlank c = false ∧ c ∉ marks.toList := by
  have hempty : String.ofList letters = "" ↔ letters = [] := by
    rw [← String.toList_inj, String.toList_ofList]
    rfl
  rw [Text.IsPlain, String.toList_ofList, Ne, hempty]

theorem Text.IsPlain.toList_ne_nil {marks text : String} (h : Text.IsPlain marks text) :
    text.toList ≠ [] :=
  fun hnil => h.1 (String.toList_inj.1 hnil)

/-! ## One token -/

theorem isDelimiter_of_isBlank {c : Char} (h : Text.isBlank c = true) : isDelimiter c = true := by
  simp [isDelimiter, h]

/-- A letter is none of the characters that the scanner treats on their own. -/
theorem ne_of_isCharLetter {c d : Char} (h : isCharLetter c = true) (hd : isDelimiter d = true) :
    c ≠ d := by
  rintro rfl
  simp [isCharLetter, hd] at h

theorem isCharLetter_of_isSymbolLetter {c : Char} (h : isSymbolLetter c = true) :
    isCharLetter c = true ∧ c ≠ ';' := by
  simpa [isSymbolLetter, isCharLetter] using h

/-- A character that passes every other test of the scanner is a letter of a symbol. -/
theorem isSymbolLetter_of_not {c : Char} (hblank : ¬ Text.isBlank c = true) (hremark : c ≠ ';')
    (hquote : ¬ isQuoteMark c = true) (hopen : c ≠ '(') (hclose : c ≠ ')') (hchar : c ≠ '\\') :
    isSymbolLetter c = true := by
  simp [isSymbolLetter, isDelimiter, hblank, hremark, hquote, hopen, hclose, hchar]

/-- The longest run of letters ends where they do. -/
theorem span_letters {p : Char → Bool} {letters rest : List Char} (h : ∀ c ∈ letters, p c = true)
    (hrest : ∀ c ∈ rest.head?, p c = false) :
    (letters ++ rest).takeWhile p = letters ∧ (letters ++ rest).dropWhile p = rest := by
  rw [List.takeWhile_append_of_pos h, List.dropWhile_append_of_pos h]
  cases rest with
  | nil => simp
  | cons c rest =>
      have hc : p c = false := hrest c rfl
      simp [hc]

theorem scanFrom_blank {c : Char} (h : Text.isBlank c = true) (position : Nat) (rest : List Char) :
    scanFrom position (c :: rest) = scanFrom (position + 1) rest := by
  rw [scanFrom, if_pos h]

/-- A comment is skipped to the end of its line. -/
theorem scanFrom_remark (position : Nat) (rest : List Char) :
    scanFrom position (';' :: rest) =
      scanFrom (position + 1 + (rest.takeWhile (· != '\n')).length)
        (rest.dropWhile (· != '\n')) := by
  rw [scanFrom, if_neg (by decide), if_pos rfl]

/-- Blanks alone have no tokens. -/
theorem scanFrom_blanks {blanks : List Char} (h : ∀ c ∈ blanks, Text.isBlank c = true)
    (position : Nat) : scanFrom position blanks = ⟨[], none⟩ := by
  induction blanks generalizing position with
  | nil => rw [scanFrom]
  | cons c blanks ih =>
      obtain ⟨hc, hblanks⟩ := List.forall_mem_cons.1 h
      rw [scanFrom_blank hc, ih hblanks]

theorem scanFrom_quote {c : Char} (h : isQuoteMark c = true) (position : Nat) (rest : List Char) :
    scanFrom position (c :: rest) = (scanFrom (position + 1) rest).cons .quote [c] := by
  have hmark : c = '\x27' ∨ c = '\x60' := by simpa [isQuoteMark] using h
  rcases hmark with rfl | rfl
  all_goals rw [scanFrom, if_neg (by decide), if_neg (by decide), if_pos h]

theorem scanFrom_open (position : Nat) (rest : List Char) :
    scanFrom position ('(' :: rest) =
      (scanFrom (position + 1) rest).cons .openBracket ['('] := by
  rw [scanFrom, if_neg (by decide), if_neg (by decide), if_neg (by decide), if_pos rfl]

theorem scanFrom_close (position : Nat) (rest : List Char) :
    scanFrom position (')' :: rest) =
      (scanFrom (position + 1) rest).cons .closeBracket [')'] := by
  rw [scanFrom, if_neg (by decide), if_neg (by decide), if_neg (by decide), if_neg (by decide),
    if_pos rfl]

/-- A symbol is cut off as far as its letters go. -/
theorem scanFrom_symbol {letters rest : List Char} (hne : letters ≠ [])
    (hletters : ∀ c ∈ letters, isSymbolLetter c = true)
    (hrest : ∀ c ∈ rest.head?, isSymbolLetter c = false) (position : Nat) :
    scanFrom position (letters ++ rest) =
      (scanFrom (position + letters.length) rest).cons .sym letters := by
  cases letters with
  | nil => exact absurd rfl hne
  | cons c letters =>
      obtain ⟨hc, hletters⟩ := List.forall_mem_cons.1 hletters
      obtain ⟨hchar, hsemicolon⟩ := isCharLetter_of_isSymbolLetter hc
      obtain ⟨htake, hdrop⟩ := span_letters hletters hrest
      have hblank : ¬ Text.isBlank c = true := by
        intro hblank
        exact ne_of_isCharLetter hchar (isDelimiter_of_isBlank hblank) rfl
      have hquote : ¬ isQuoteMark c = true := by
        intro hquote
        exact ne_of_isCharLetter hchar (by simp [isDelimiter, hquote]) rfl
      rw [List.cons_append, scanFrom, if_neg hblank, if_neg hsemicolon, if_neg hquote,
        if_neg (ne_of_isCharLetter hchar (by decide)),
        if_neg (ne_of_isCharLetter hchar (by decide)),
        if_neg (ne_of_isCharLetter hchar (by decide))]
      simp only [htake, hdrop, List.length_cons]
      rw [Nat.add_assoc, Nat.add_comm 1]

/-- A character is cut off with its backslash, as far as its letters go. -/
theorem scanFrom_char {letters rest : List Char} (hne : letters ≠ [])
    (hletters : ∀ c ∈ letters, isCharLetter c = true)
    (hrest : ∀ c ∈ rest.head?, isCharLetter c = false) (position : Nat) :
    scanFrom position ('\\' :: (letters ++ rest)) =
      (scanFrom (position + 1 + letters.length) rest).cons .chr ('\\' :: letters) := by
  obtain ⟨htake, hdrop⟩ := span_letters hletters hrest
  have hsome : ¬ letters.isEmpty = true := by simpa using hne
  rw [scanFrom, if_neg (by decide), if_neg (by decide), if_neg (by decide), if_neg (by decide),
    if_neg (by decide), if_pos rfl]
  simp only [htake, hdrop, if_neg hsome]

/-- A backslash without a letter behind it is where the scan ends. -/
theorem scanFrom_stray {rest : List Char} (hrest : ∀ c ∈ rest.head?, isCharLetter c = false)
    (position : Nat) :
    scanFrom position ('\\' :: rest) = ⟨[], some (.strayChar position '\\')⟩ := by
  have hspan := @span_letters isCharLetter [] rest (by simp) hrest
  have htake : rest.takeWhile isCharLetter = [] := hspan.1
  rw [scanFrom, if_neg (by decide), if_neg (by decide), if_neg (by decide), if_neg (by decide),
    if_neg (by decide), if_pos rfl]
  simp [htake]

/-- A token starts with every character that is neither a blank nor starts a comment. -/
theorem tokens_scanFrom_cons_ne_nil {c : Char} {position : Nat} {rest : List Char}
    (hblank : Text.isBlank c = false) (hremark : c ≠ ';')
    (h : (scanFrom position (c :: rest)).fault = none) :
    (scanFrom position (c :: rest)).tokens ≠ [] := by
  generalize hchars : c :: rest = chars at h ⊢
  revert h
  fun_cases scanFrom position chars with
  | case1 => cases hchars
  | case2 d more hblank' =>
      cases hchars
      rw [hblank] at hblank'
      cases hblank'
  | case3 more hblank' =>
      cases hchars
      exact absurd rfl hremark
  | case7 =>
      intro h
      cases h
  | _ =>
      intro _
      apply List.cons_ne_nil

/-! ## The tokens of a text -/

/-- The text of a token is one that its class allows. -/
def Token.Legible (token : Token) : Prop :=
  match token.kind with
  | .sym => Text.IsPlain symbolMarks token.text
  | .chr => Text.IsPlain charMarks (String.ofList (token.text.toList.drop 1))
  | _ => True

theorem Scan.mem_cons {kind : TokenKind} {chars : List Char} {scan : Scan} {token : Token} :
    token ∈ (scan.cons kind chars).tokens ↔
      token = ⟨kind, String.ofList chars⟩ ∨ token ∈ scan.tokens :=
  List.mem_cons

theorem legible_char {letters : List Char} (hne : letters ≠ [])
    (hletters : ∀ c ∈ letters, isCharLetter c = true) :
    Token.Legible ⟨.chr, String.ofList ('\\' :: letters)⟩ := by
  show Text.IsPlain charMarks (String.ofList ((String.ofList ('\\' :: letters)).toList.drop 1))
  rw [String.toList_ofList, List.drop_one, List.tail_cons, isPlain_ofList_iff]
  exact ⟨hne, fun c hc => isCharLetter_iff.1 (hletters c hc)⟩

theorem legible_symbol {letters : List Char} (hne : letters ≠ [])
    (hletters : ∀ c ∈ letters, isSymbolLetter c = true) :
    Token.Legible ⟨.sym, String.ofList letters⟩ :=
  isPlain_ofList_iff.2 ⟨hne, fun c hc => isSymbolLetter_iff.1 (hletters c hc)⟩

/-- The scanner hands out legible tokens only. -/
theorem legible_of_mem_scanFrom {position : Nat} {chars : List Char} {token : Token}
    (h : token ∈ (scanFrom position chars).tokens) : token.Legible := by
  fun_induction scanFrom position chars with
  | case1 position => simp at h
  | case2 position c rest _ ih => exact ih h
  | case3 position rest _ ih => exact ih h
  | case4 position c rest _ _ _ ih =>
      rcases Scan.mem_cons.1 h with rfl | h
      · trivial
      · exact ih h
  | case5 position rest _ _ _ ih =>
      rcases Scan.mem_cons.1 h with rfl | h
      · trivial
      · exact ih h
  | case6 position rest _ _ _ _ ih =>
      rcases Scan.mem_cons.1 h with rfl | h
      · trivial
      · exact ih h
  | case7 position rest letters hempty => simp at h
  | case8 position rest letters hsome _ _ _ _ _ ih =>
      rcases Scan.mem_cons.1 h with rfl | h
      · refine legible_char (fun hempty => hsome (by simp [hempty])) fun c hc => ?_
        exact List.all_eq_true.1 List.all_takeWhile c hc
      · exact ih h
  | case9 position c rest hblank hsemicolon hquote hopen hclose hbackslash letters ih =>
      rcases Scan.mem_cons.1 h with rfl | h
      · -- the first letter has passed every other test, so it is a letter too
        have hc := isSymbolLetter_of_not hblank hsemicolon hquote hopen hclose hbackslash
        refine legible_symbol (List.cons_ne_nil _ _) (List.forall_mem_cons.2 ⟨hc, fun d hd => ?_⟩)
        exact List.all_eq_true.1 List.all_takeWhile d hd
      · exact ih h

theorem legible_of_mem_scan {source : String} {token : Token} (h : token ∈ (scan source).tokens) :
    token.Legible :=
  legible_of_mem_scanFrom h

end BelLisp
