import BelLisp.Proofs.Reader.Joined

/-!
# Blanks at the ends of a text

Blanks separate tokens and are none. In front of a text they only move it, and behind it they add
nothing: a token ends before them, and a comment may run into them but hides nothing there
(`scanFrom_append_blanks`). So a text has the forms of the text without the blanks at its ends, and
a fault differs in the place that it names, if at all (`readAll_trim`).
-/

set_option autoImplicit false

namespace BelLisp

/-! ## Behind a text -/

section Behind

variable {blanks : List Char} (h : ∀ c ∈ blanks, Text.isBlank c = true)
include h

/-- A run of letters does not go on in the blanks behind a text. -/
theorem span_append_blanks {p : Char → Bool} (hp : ∀ c, isDelimiter c = true → p c = false)
    (rest : List Char) :
    (rest ++ blanks).takeWhile p = rest.takeWhile p ∧
      (rest ++ blanks).dropWhile p = rest.dropWhile p ++ blanks := by
  refine span_append (fun c hc => ?_) rest
  apply hp
  exact isDelimiter_of_isBlank (h c (List.mem_of_mem_head? hc))

/-- A comment ends at its newline, or it takes in blanks, which have no tokens anyway. -/
theorem scanFrom_remark_append_blanks {position : Nat} {rest : List Char}
    (ih : scanFrom (position + 1 + (rest.takeWhile (· != '\n')).length)
        (rest.dropWhile (· != '\n') ++ blanks) =
      scanFrom (position + 1 + (rest.takeWhile (· != '\n')).length)
        (rest.dropWhile (· != '\n'))) :
    scanFrom position (';' :: (rest ++ blanks)) = scanFrom position (';' :: rest) := by
  rw [scanFrom_remark, scanFrom_remark]
  cases hdrop : rest.dropWhile (· != '\n') with
  | nil =>
      -- the comment is the last thing in the text
      have hblank : ∀ c ∈ (rest ++ blanks).dropWhile (· != '\n'), Text.isBlank c = true := by
        rw [List.dropWhile_append, hdrop]
        exact fun c hc => h c ((List.dropWhile_sublist _).subset hc)
      rw [scanFrom_blanks hblank, scanFrom]
  | cons c line =>
      -- the newline that ends the comment stands before the blanks
      have hsplit : rest ++ blanks = rest.takeWhile (· != '\n') ++ (c :: line ++ blanks) := by
        rw [← hdrop, ← List.append_assoc, List.takeWhile_append_dropWhile]
      have hhead : ∀ d ∈ (c :: line ++ blanks).head?, (d != '\n') = false := by
        intro d hd
        cases hd
        have hstop := List.head?_dropWhile_not (· != '\n') rest
        rw [hdrop] at hstop
        exact hstop
      obtain ⟨htake, hleft⟩ := span_letters (p := (· != '\n'))
        (fun d hd => List.all_eq_true.1 List.all_takeWhile d hd) hhead
      rw [hsplit, htake, hleft, ← hdrop, ih]

/-- Blanks behind a text are not scanned, by induction along the scanner. -/
theorem scanFrom_append_blanks (position : Nat) (chars : List Char) :
    scanFrom position (chars ++ blanks) = scanFrom position chars := by
  fun_induction scanFrom position chars with
  | case1 position => exact scanFrom_blanks h position
  | case2 position c rest hblank ih => rw [List.cons_append, scanFrom_blank hblank, ih]
  | case3 position rest hblank ih =>
      rw [List.cons_append, scanFrom_remark_append_blanks h ih, scanFrom_remark]
  | case4 position c rest hblank hremark hquote ih =>
      rw [List.cons_append, scanFrom, if_neg hblank, if_neg hremark, if_pos hquote, ih]
  | case5 position rest hblank hremark hquote ih => rw [List.cons_append, scanFrom_open, ih]
  | case6 position rest hblank hremark hquote hopen ih =>
      rw [List.cons_append, scanFrom_close, ih]
  | case7 position rest letters hempty hblank hremark hquote hopen hclose =>
      obtain ⟨htake, -⟩ := span_append_blanks h (p := isCharLetter) (fun c hc => by
        simp [isCharLetter, hc]) rest
      rw [List.cons_append, scanFrom, if_neg hblank, if_neg hremark, if_neg hquote, if_neg hopen,
        if_neg hclose, if_pos rfl]
      simp only [htake]
      rw [if_pos hempty]
  | case8 position rest letters hsome hblank hremark hquote hopen hclose ih =>
      obtain ⟨htake, hdrop⟩ := span_append_blanks h (p := isCharLetter) (fun c hc => by
        simp [isCharLetter, hc]) rest
      rw [List.cons_append, scanFrom, if_neg hblank, if_neg hremark, if_neg hquote, if_neg hopen,
        if_neg hclose, if_pos rfl]
      simp only [htake, hdrop]
      rw [if_neg hsome, ih]
  | case9 position c rest hblank hremark hquote hopen hclose hbackslash letters ih =>
      obtain ⟨htake, hdrop⟩ := span_append_blanks h (p := isSymbolLetter) (fun c hc => by
        simp [isSymbolLetter, hc]) rest
      rw [List.cons_append, scanFrom, if_neg hblank, if_neg hremark, if_neg hquote, if_neg hopen,
        if_neg hclose, if_neg hbackslash]
      simp only [htake, hdrop]
      rw [ih]

end Behind

/-! ## At both ends -/

/-- Blanks in front of a text only move it. -/
theorem scanFrom_blanks_append {blanks : List Char} (h : ∀ c ∈ blanks, Text.isBlank c = true)
    (position : Nat) (chars : List Char) :
    scanFrom position (blanks ++ chars) = scanFrom (position + blanks.length) chars := by
  induction blanks generalizing position with
  | nil => rfl
  | cons c blanks ih =>
      obtain ⟨hc, hblanks⟩ := List.forall_mem_cons.1 h
      rw [List.cons_append, scanFrom_blank hc, ih hblanks, List.length_cons, Nat.add_assoc,
        Nat.add_comm 1]

/-- A text is its trimmed text with blanks in front and behind. -/
theorem Text.exists_blanks_trim (text : String) :
    ∃ front back : List Char, text.toList = front ++ ((trim text).toList ++ back) ∧
      (∀ c ∈ front, isBlank c = true) ∧ ∀ c ∈ back, isBlank c = true := by
  let chars := text.toList.dropWhile isBlank
  refine ⟨text.toList.takeWhile isBlank, (chars.reverse.takeWhile isBlank).reverse, ?_, ?_, ?_⟩
  · have hback : dropEndWhile isBlank chars ++ (chars.reverse.takeWhile isBlank).reverse =
        chars := by
      rw [dropEndWhile, ← List.reverse_append, List.takeWhile_append_dropWhile,
        List.reverse_reverse]
    have htrim : (trim text).toList = dropEndWhile isBlank chars := String.toList_ofList
    rw [htrim, hback, List.takeWhile_append_dropWhile]
  · intro c hc
    exact List.all_eq_true.1 List.all_takeWhile c hc
  · intro c hc
    exact List.all_eq_true.1 List.all_takeWhile c (List.mem_reverse.1 hc)

/-- Trimming a text changes nothing about what it reads as, except for the place that a fault of the
scanner names. -/
theorem readAll_trim (text : String) :
    ∃ offset, readAll text = (readAll (Text.trim text)).shift offset := by
  obtain ⟨front, back, htext, hfront, hback⟩ := Text.exists_blanks_trim text
  refine ⟨front.length, ?_⟩
  have hscan : scan text = (scan (Text.trim text)).shift front.length := by
    rw [scan, htext, scanFrom_blanks_append hfront, scanFrom_append_blanks hback, scanFrom_add]
    rfl
  rw [readAll, hscan, readAll, ← readFormsFrom_shift]
  rfl

theorem forms_readAll_trim (text : String) :
    (readAll (Text.trim text)).forms = (readAll text).forms := by
  obtain ⟨offset, hread⟩ := readAll_trim text
  rw [hread]
  rfl

theorem fault_readAll_trim_eq_none_iff {text : String} :
    (readAll (Text.trim text)).fault = none ↔ (readAll text).fault = none := by
  obtain ⟨offset, hread⟩ := readAll_trim text
  rw [hread]
  exact Option.map_eq_none_iff.symm

end BelLisp
