import BelLisp.Proofs.Reader.Printed
import BelLisp.Proofs.Reader.Steps

/-!
# Texts joined at a newline

A newline ends a comment and every token, and is a blank itself. So the tokens of two texts with a
newline between them are the tokens of the first and then those of the second, unless the first
cannot be scanned to its end (`scanFrom_newline`). A first text that can be read leaves the reader
where it started, so the forms of the joined text are those of the first and then those of the
second; a fault of the second only counts its place from the new start (`readAll_newline`).
-/

set_option autoImplicit false

namespace BelLisp

/-! ## Positions -/

/-- The fault in a text that stands `offset` characters further on. -/
def ReadFault.shift (offset : Nat) : ReadFault → ReadFault
  | .strayChar position char => .strayChar (position + offset) char
  | fault => fault

namespace Scan

/-- The scan of a text that stands `offset` characters further on. -/
def shift (offset : Nat) (scan : Scan) : Scan :=
  { scan with fault := scan.fault.map (ReadFault.shift offset) }

/-- One scan and then another, unless the first ends with a fault. -/
def andThen (first second : Scan) : Scan :=
  match first.fault with
  | some _ => first
  | none => second.prepend first.tokens

theorem andThen_of_clean {first : Scan} (h : first.fault = none) (second : Scan) :
    first.andThen second = second.prepend first.tokens := by
  rw [andThen, h]

theorem cons_shift (kind : TokenKind) (chars : List Char) (offset : Nat) (scan : Scan) :
    (scan.cons kind chars).shift offset = (scan.shift offset).cons kind chars := rfl

theorem cons_andThen (kind : TokenKind) (chars : List Char) (first second : Scan) :
    (first.cons kind chars).andThen second = (first.andThen second).cons kind chars := by
  cases hfault : first.fault <;> simp [andThen, cons, prepend, hfault]

end Scan

/-! ## One step of the scanner -/

/-- Nothing follows, or a newline does. -/
def AtLineEnd (more : List Char) : Prop := ∀ c ∈ more.head?, c = '\n'

/-- A run of characters does not go on in a text that starts with none of them. -/
theorem span_append {p : Char → Bool} {more : List Char} (hmore : ∀ c ∈ more.head?, p c = false)
    (rest : List Char) :
    (rest ++ more).takeWhile p = rest.takeWhile p ∧
      (rest ++ more).dropWhile p = rest.dropWhile p ++ more := by
  induction rest with
  | nil =>
      cases more with
      | nil => exact ⟨rfl, rfl⟩
      | cons c more =>
          have hc : p c = false := hmore c rfl
          simp [hc]
  | cons c rest ih =>
      cases hc : p c with
      | true => simp [hc, ih]
      | false => simp [hc]

/-- A run of characters that are not newlines ends with the line. -/
theorem AtLineEnd.span {more : List Char} (hmore : AtLineEnd more) {p : Char → Bool}
    (hp : p '\n' = false) (rest : List Char) :
    (rest ++ more).takeWhile p = rest.takeWhile p ∧
      (rest ++ more).dropWhile p = rest.dropWhile p ++ more := by
  refine span_append (fun c hc => ?_) rest
  rw [hmore c hc]
  exact hp

/-- What one step of the scanner does with the characters it uses, wherever they stand and whatever
follows in a new line: it skips them, or cuts them off as a token, or ends with a fault. -/
inductive ScanStep (used left : List Char) : Prop
  | skip (h : ∀ position more, AtLineEnd more →
      scanFrom position (used ++ (left ++ more)) = scanFrom (position + used.length) (left ++ more))
  | token (kind : TokenKind) (h : ∀ position more, AtLineEnd more →
      scanFrom position (used ++ (left ++ more)) =
        (scanFrom (position + used.length) (left ++ more)).cons kind used)
  | fault (c : Char) (h : ∀ position more, AtLineEnd more →
      scanFrom position (used ++ (left ++ more)) = ⟨[], some (.strayChar position c)⟩)

theorem cons_span_append (p : Char → Bool) (c : Char) (rest more : List Char) :
    c :: rest.takeWhile p ++ (rest.dropWhile p ++ more) = c :: (rest ++ more) := by
  rw [List.cons_append, ← List.append_assoc, List.takeWhile_append_dropWhile]

/-- A step may use a character and the run of characters behind it. -/
theorem scanStep_of_span {p : Char → Bool} {c : Char} {rest : List Char}
    (h : ScanStep (c :: rest.takeWhile p) (rest.dropWhile p)) :
    ∃ used left, c :: rest = used ++ left ∧ left.length ≤ rest.length ∧ ScanStep used left := by
  refine ⟨_, _, ?_, length_dropWhile_le p rest, h⟩
  rw [List.cons_append, List.takeWhile_append_dropWhile]

/-- The scanner makes a step on every text that is not empty, and the step ends with its line. -/
theorem scanStep_exists (c : Char) (rest : List Char) :
    ∃ used left, c :: rest = used ++ left ∧ left.length ≤ rest.length ∧ ScanStep used left := by
  -- the cases follow the tests of the scanner on the first character
  by_cases hblank : Text.isBlank c = true
  · exact ⟨[c], rest, rfl, Nat.le_refl _, .skip fun position more _ => scanFrom_blank hblank ..⟩
  by_cases hremark : c = ';'
  · refine scanStep_of_span (p := (· != '\n')) (.skip fun position more hmore => ?_)
    obtain ⟨htake, hdrop⟩ := hmore.span (p := (· != '\n')) (by decide) rest
    rw [cons_span_append, scanFrom, if_neg hblank, if_pos hremark, htake, hdrop, List.length_cons,
      Nat.add_assoc, Nat.add_comm 1]
  by_cases hquote : isQuoteMark c = true
  · exact ⟨[c], rest, rfl, Nat.le_refl _, .token .quote fun position more _ =>
      scanFrom_quote hquote position _⟩
  by_cases hopen : c = '('
  · subst hopen
    exact ⟨['('], rest, rfl, Nat.le_refl _, .token .openBracket fun position more _ =>
      scanFrom_open position _⟩
  by_cases hclose : c = ')'
  · subst hclose
    exact ⟨[')'], rest, rfl, Nat.le_refl _, .token .closeBracket fun position more _ =>
      scanFrom_close position _⟩
  by_cases hchar : c = '\\'
  · -- whether a letter follows the backslash is decided within the line
    have hstep : ∀ position more, AtLineEnd more →
        scanFrom position (c :: rest.takeWhile isCharLetter ++
          (rest.dropWhile isCharLetter ++ more)) =
        if (rest.takeWhile isCharLetter).isEmpty then ⟨[], some (.strayChar position c)⟩
        else (scanFrom (position + (c :: rest.takeWhile isCharLetter).length)
          (rest.dropWhile isCharLetter ++ more)).cons .chr (c :: rest.takeWhile isCharLetter) := by
      intro position more hmore
      obtain ⟨htake, hdrop⟩ := hmore.span (p := isCharLetter) (by decide) rest
      rw [cons_span_append, scanFrom, if_neg hblank, if_neg hremark, if_neg hquote, if_neg hopen,
        if_neg hclose, if_pos hchar]
      simp only [htake, hdrop, List.length_cons]
      rw [Nat.add_assoc, Nat.add_comm 1]
    refine scanStep_of_span (p := isCharLetter) ?_
    by_cases hempty : (rest.takeWhile isCharLetter).isEmpty = true
    · exact .fault c fun position more hmore => by rw [hstep position more hmore, if_pos hempty]
    · exact .token .chr fun position more hmore => by rw [hstep position more hmore, if_neg hempty]
  · refine scanStep_of_span (p := isSymbolLetter) (.token .sym fun position more hmore => ?_)
    obtain ⟨htake, hdrop⟩ := hmore.span (p := isSymbolLetter) (by decide) rest
    rw [cons_span_append, scanFrom, if_neg hblank, if_neg hremark, if_neg hquote, if_neg hopen,
      if_neg hclose, if_neg hchar]
    simp only [htake, hdrop, List.length_cons]
    rw [Nat.add_assoc, Nat.add_comm 1]

theorem atLineEnd_nil : AtLineEnd [] := by simp [AtLineEnd]

theorem atLineEnd_newline (more : List Char) : AtLineEnd ('\n' :: more) := by simp [AtLineEnd]

/-- A property of a text holds if it holds of the empty text and each step of the scanner takes it
from what is left to the whole. -/
theorem scan_induction {motive : List Char → Prop} (nil : motive [])
    (step : ∀ used left, ScanStep used left → motive left → motive (used ++ left))
    (chars : List Char) : motive chars := by
  match chars with
  | [] => exact nil
  | c :: rest =>
      obtain ⟨used, left, hchars, hless, hstep⟩ := scanStep_exists c rest
      rw [hchars]
      exact step used left hstep (scan_induction nil step left)
termination_by chars.length
decreasing_by
  rw [List.length_cons]
  omega

/-! ## Scanning joined texts -/

/-- Where a text stands matters only to the place that a fault names. -/
theorem scanFrom_add (offset : Nat) (chars : List Char) (position : Nat) :
    scanFrom (position + offset) chars = (scanFrom position chars).shift offset := by
  induction chars using scan_induction generalizing position with
  | nil =>
      rw [scanFrom, scanFrom]
      rfl
  | step used left hstep ih =>
      -- nothing follows the text, which is one way to be at the end of a line
      rw [← List.append_nil left]
      cases hstep with
      | skip h =>
          rw [h _ _ atLineEnd_nil, h _ _ atLineEnd_nil, List.append_nil, Nat.add_right_comm, ih]
      | token kind h =>
          rw [h _ _ atLineEnd_nil, h _ _ atLineEnd_nil, List.append_nil, Nat.add_right_comm, ih,
            Scan.cons_shift]
      | fault c h =>
          rw [h _ _ atLineEnd_nil, h _ _ atLineEnd_nil]
          rfl

/-- Behind a newline the scan starts afresh, unless it has ended with a fault before. -/
theorem scanFrom_newline (chars more : List Char) (position : Nat) :
    scanFrom position (chars ++ '\n' :: more) =
      (scanFrom position chars).andThen (scanFrom (position + chars.length + 1) more) := by
  induction chars using scan_induction generalizing position with
  | nil =>
      rw [List.nil_append, scanFrom_blank (by decide), scanFrom]
      rfl
  | step used left hstep ih =>
      have halone : used ++ left = used ++ (left ++ []) := by rw [List.append_nil]
      rw [List.append_assoc, List.length_append, ← Nat.add_assoc, halone]
      cases hstep with
      | skip h =>
          rw [h _ _ (atLineEnd_newline more), h _ _ atLineEnd_nil, List.append_nil, ih]
      | token kind h =>
          rw [h _ _ (atLineEnd_newline more), h _ _ atLineEnd_nil, List.append_nil, ih,
            Scan.cons_andThen]
      | fault c h =>
          rw [h _ _ (atLineEnd_newline more), h _ _ atLineEnd_nil]
          rfl

/-! ## Reading joined texts -/

/-- A fault of the scanner always comes to light. -/
theorem fault_of_scanFault (fault : ReadFault) (state : ReadState) (tokens : List Token) :
    (readFormsFrom (some fault) state tokens).fault ≠ none := by
  induction tokens generalizing state with
  | nil => simp [readFormsFrom]
  | cons token tokens ih =>
      rw [readFormsFrom]
      split
      · simp
      · exact ih .start
      · exact ih _

theorem scan_clean_of_readAll {source : String} (h : (readAll source).fault = none) :
    (scan source).fault = none := by
  cases hfault : (scan source).fault with
  | none => rfl
  | some fault =>
      rw [readAll, hfault] at h
      exact absurd h (fault_of_scanFault fault .start _)

namespace Reading

/-- Puts forms in front. -/
def prepend (forms : List Datum) (reading : Reading) : Reading :=
  { reading with forms := forms ++ reading.forms }

/-- The reading of a text that stands `offset` characters further on. -/
def shift (offset : Nat) (reading : Reading) : Reading :=
  { reading with fault := reading.fault.map (ReadFault.shift offset) }

end Reading

/-- Tokens that can be read to their end leave the reader where it started. -/
theorem readFormsFrom_append {state : ReadState} {tokens : List Token} (hdone : ¬ state.IsDone)
    (h : (readFormsFrom none state tokens).fault = none) (scanFault : Option ReadFault)
    (more : List Token) :
    readFormsFrom scanFault state (tokens ++ more) =
      (readFormsFrom scanFault .start more).prepend (readFormsFrom none state tokens).forms := by
  induction tokens generalizing state with
  | nil =>
      cases hend : state.atEnd with
      | error fault => simp [readFormsFrom, hend] at h
      | ok form =>
          cases form with
          | none =>
              rw [ReadState.eq_start_of_atEnd hend]
              rfl
          | some d => exact absurd (ReadState.isDone_of_atEnd hend) hdone
  | cons token tokens ih =>
      rw [readFormsFrom] at h
      rw [List.cons_append, readFormsFrom, readFormsFrom]
      split at h
      · simp at h
      · -- a form is complete: the rest is read from the start again
        simp only [ih id h]
        rfl
      · rename_i next hopen htake
        exact ih (ReadState.not_isDone_of_ne hopen) h

theorem ReadState.shift_of_take {state : ReadState} {token : Token} {fault : ReadFault}
    (h : state.take token = .error fault) (offset : Nat) : fault.shift offset = fault := by
  rcases token with ⟨kind, text⟩
  rcases state with frames | ⟨elements, tail, frames⟩ | d
  · cases kind with
    | sym =>
        simp only [take] at h
        split at h
        · split at h <;> cases h
        · cases h
    | chr | quote | openBracket => cases h
    | closeBracket =>
        simp only [take] at h
        split at h
        · cases h
        · cases h
          rfl
    | other name =>
        cases h
        rfl
  · simp only [take] at h
    split at h
    · cases h
    · cases h
      rfl
  · cases h

theorem ReadState.shift_of_atEnd {state : ReadState} {fault : ReadFault}
    (h : state.atEnd = .error fault) (offset : Nat) : fault.shift offset = fault := by
  fun_cases atEnd state
  all_goals
    cases h
    try rfl

/-- The faults of the reader itself name no place, so a shift shows in those of the scanner only. -/
theorem readFormsFrom_shift (offset : Nat) (scanFault : Option ReadFault) (state : ReadState)
    (tokens : List Token) :
    readFormsFrom (scanFault.map (ReadFault.shift offset)) state tokens =
      (readFormsFrom scanFault state tokens).shift offset := by
  induction tokens generalizing state with
  | nil =>
      cases scanFault with
      | some fault => rfl
      | none =>
          cases hend : state.atEnd with
          | error fault =>
              simp [readFormsFrom, hend, Reading.shift, ReadState.shift_of_atEnd hend]
          | ok form => simp [readFormsFrom, hend, Reading.shift]
  | cons token tokens ih =>
      rw [readFormsFrom, readFormsFrom]
      split
      · rename_i fault htake
        simp [Reading.shift, ReadState.shift_of_take htake]
      · rw [ih]
        rfl
      · exact ih _

theorem scan_newline (first second : String) :
    scan (first ++ "\n" ++ second) =
      (scan first).andThen ((scan second).shift (first.length + 1)) := by
  have hchars : (first ++ "\n" ++ second).toList = first.toList ++ '\n' :: second.toList := by simp
  rw [scan, hchars, scanFrom_newline, Nat.add_assoc, scanFrom_add, String.length_toList]
  rfl

/-- If the first of two joined texts can be read, the forms of both are its forms and then those of
the second, and a fault is one of the second. -/
theorem readAll_newline {first : String} (h : (readAll first).fault = none) (second : String) :
    readAll (first ++ "\n" ++ second) =
      ((readAll second).shift (first.length + 1)).prepend (readAll first).forms := by
  have hclean : (scan first).fault = none := scan_clean_of_readAll h
  have hfirst : readAll first = readFormsFrom none .start (scan first).tokens := by
    rw [readAll, hclean]
  have hscan : scan (first ++ "\n" ++ second) =
      ((scan second).shift (first.length + 1)).prepend (scan first).tokens := by
    rw [scan_newline, Scan.andThen_of_clean hclean]
  rw [hfirst] at h
  rw [readAll, hscan, hfirst, readAll]
  simp only [Scan.prepend, Scan.shift]
  rw [readFormsFrom_append id h, readFormsFrom_shift]

end BelLisp
