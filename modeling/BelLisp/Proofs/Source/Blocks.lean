import BelLisp.Proofs.Reader.Joined
import BelLisp.Proofs.Source.Paragraphs
import BelLisp.Text.Lines
import Mathlib.Data.List.Basic
import Mathlib.Data.List.TakeWhile

/-!
# The tokens of a source file

A source file is cut into lines and the lines into blocks; lines that start with a semicolon and
blank lines are dropped. No token is lost by that. A line is scanned on its own, whatever stands in
the lines around it (`tokensOf_blockText`), and the dropped lines have no tokens
(`scanFrom_of_not_isKept`). The other lines make up the blocks, in order (`blocks_eq`). So the
tokens of the file are those of its blocks, one block after another (`tokensOf_eq_flatMap_blocks`).
-/

set_option autoImplicit false

namespace BelLisp

/-! ## Lines of a text -/

namespace Text

theorem return_not_mem_unifyNewlines (chars : List Char) : '\r' ∉ unifyNewlines chars := by
  fun_induction unifyNewlines chars with
  | case1 => simp
  | case2 rest ih => simpa using ih
  | case3 rest _ ih => simpa using ih
  | case4 c rest _ hreturn ih =>
      have hc : '\r' ≠ c := fun h => hreturn h.symm
      simpa [hc] using ih

theorem dropEndWhile_cons {p : Char → Bool} {c : Char} (h : p c = false) (chars : List Char) :
    dropEndWhile p (c :: chars) = c :: dropEndWhile p chars := by
  rw [dropEndWhile, dropEndWhile, List.reverse_cons, List.dropWhile_append]
  split
  · rename_i hempty
    simp [List.isEmpty_iff.1 hempty, h]
  · rw [List.reverse_append]
    rfl

theorem isPrefix_dropEndWhile (p : Char → Bool) (chars : List Char) :
    dropEndWhile p chars <+: chars := by
  rw [dropEndWhile, ← List.reverse_suffix, List.reverse_reverse]
  exact List.dropWhile_suffix p

theorem eq_nil_of_splitLines {text : List Char} (h : splitLines text = []) : text = [] := by
  rw [← flatten_splitAfter (· == '\n') text, ← splitLines, h]
  rfl

end Text

namespace Source

open Text (splitLines splitAfter)

theorem lineBody_cons {c : Char} (hnewline : c ≠ '\n') (hreturn : c ≠ '\r') (line : List Char) :
    lineBody (c :: line) = c :: lineBody line :=
  Text.dropEndWhile_cons (by simp [hnewline, hreturn]) line

/-- The lines of a text without carriage returns have no newline in them, and with a newline behind
each they are the text again, or the text with the newline that its last line lacks. -/
theorem bodies_splitLines {text : List Char} (h : '\r' ∉ text) :
    (∀ line ∈ (splitLines text).map lineBody, '\n' ∉ line) ∧
      (blockText ((splitLines text).map lineBody) = text ∨
        blockText ((splitLines text).map lineBody) = text ++ ['\n']) := by
  induction text with
  | nil => exact ⟨by simp [splitLines, splitAfter], .inl rfl⟩
  | cons c rest ih =>
      obtain ⟨hc, hrest⟩ := not_or.1 (fun hmem => h (List.mem_cons.2 hmem))
      obtain ⟨hlines, htext⟩ := ih hrest
      by_cases hnewline : c = '\n'
      · -- an empty line in front
        subst hnewline
        have hsplit : splitLines ('\n' :: rest) = ['\n'] :: splitLines rest := rfl
        have hbody : lineBody ['\n'] = [] := rfl
        rw [hsplit, List.map_cons, hbody]
        refine ⟨List.forall_mem_cons.2 ⟨by simp, hlines⟩, ?_⟩
        exact htext.imp (congrArg ('\n' :: ·)) (congrArg ('\n' :: ·))
      · have hcons := lineBody_cons hnewline fun hreturn => hc hreturn.symm
        have hend : (c == '\n') = false := by simpa using hnewline
        cases hparts : splitLines rest with
        | nil =>
            -- the text ends here, without a newline
            obtain rfl := Text.eq_nil_of_splitLines hparts
            have hsplit : splitLines [c] = [[c]] := by simp [splitLines, splitAfter, hend]
            have hbody : lineBody [c] = [c] := hcons []
            rw [hsplit, List.map_singleton, hbody]
            exact ⟨by simpa using fun heq => hnewline heq.symm, .inr rfl⟩
        | cons line lines =>
            -- the character goes to the front of the first line
            have hsplit : splitLines (c :: rest) = (c :: line) :: lines := by
              rw [splitLines] at hparts
              simp [splitLines, splitAfter, hend, hparts]
            rw [hparts, List.map_cons] at hlines htext
            obtain ⟨hline, hlines⟩ := List.forall_mem_cons.1 hlines
            rw [hsplit, List.map_cons, hcons]
            refine ⟨List.forall_mem_cons.2 ⟨?_, hlines⟩, ?_⟩
            · exact List.not_mem_cons_of_ne_of_not_mem (fun heq => hnewline heq.symm) hline
            · exact htext.imp (congrArg (c :: ·)) (congrArg (c :: ·))

/-- Without a byte-order mark at the start of the text, none is dropped. -/
theorem bodies_eq_map {text : List Char} (h : text.head? ≠ some '\ufeff') :
    bodies (splitLines text) = (splitLines text).map lineBody := by
  have hflatten : (splitLines text).flatten = text := Text.flatten_splitAfter _ text
  cases hlines : splitLines text with
  | nil => rfl
  | cons line lines =>
      have hhead : (lineBody line).head? ≠ some '\ufeff' := by
        intro hhead
        obtain ⟨lineEnd, hline⟩ : lineBody line <+: line := Text.isPrefix_dropEndWhile _ line
        rw [hlines, List.flatten_cons, ← hline] at hflatten
        rw [← hflatten] at h
        simp [hhead] at h
      rw [bodies, dropMark_eq, if_neg hhead, List.map_cons]

/-! ## Lines and blocks -/

/-- Does the line belong to a block? -/
def isKept (line : List Char) : Bool := !isRemark line && !isGap line

/-- The blocks are the lines that belong to blocks, in order, in groups. -/
theorem blocks_eq (lines : List (List Char)) :
    ∃ parts : List (List (List Char)), blocks lines = parts.map blockText ∧
      parts.flatten = (bodies lines).filter isKept := by
  refine ⟨_, blocks_eq_map_runs lines, ?_⟩
  rw [flatten_runs, List.filter_filter]
  apply List.filter_congr
  intro line _
  exact Bool.and_comm _ _

/-! ## Tokens line by line -/

/-- The tokens of characters. -/
def tokensOf (chars : List Char) : List Token := (scanFrom 0 chars).tokens

/-- The characters can be scanned to their end. -/
def Scans (chars : List Char) : Prop := (scanFrom 0 chars).fault = none

theorem scans_newline {chars more : List Char} :
    Scans (chars ++ '\n' :: more) ↔ Scans chars ∧ Scans more := by
  rw [Scans, Scans, Scans, scanFrom_newline, Nat.add_assoc, scanFrom_add]
  cases hfault : (scanFrom 0 chars).fault with
  | none => simp [Scan.andThen, Scan.shift, Scan.prepend, hfault]
  | some fault => simp [Scan.andThen, hfault]

theorem tokensOf_newline {chars : List Char} (h : Scans chars) (more : List Char) :
    tokensOf (chars ++ '\n' :: more) = tokensOf chars ++ tokensOf more := by
  rw [tokensOf, scanFrom_newline, Scan.andThen_of_clean h, Nat.add_assoc, scanFrom_add]
  rfl

theorem blockText_cons (line : List Char) (lines : List (List Char)) :
    blockText (line :: lines) = line ++ '\n' :: blockText lines := by
  simp [blockText]

theorem scans_blockText {lines : List (List Char)} :
    Scans (blockText lines) ↔ ∀ line ∈ lines, Scans line := by
  induction lines with
  | nil => simp [blockText, Scans, scanFrom]
  | cons line lines ih =>
      rw [blockText_cons, scans_newline, ih, List.forall_mem_cons]

/-- A line is scanned on its own. -/
theorem tokensOf_blockText {lines : List (List Char)} (h : ∀ line ∈ lines, Scans line) :
    tokensOf (blockText lines) = lines.flatMap tokensOf := by
  induction lines with
  | nil => simp [blockText, tokensOf, scanFrom]
  | cons line lines ih =>
      obtain ⟨hline, hlines⟩ := List.forall_mem_cons.1 h
      rw [blockText_cons, tokensOf_newline hline, ih hlines, List.flatMap_cons]

theorem scanFrom_of_isGap {line : List Char} (h : isGap line = true) (position : Nat) :
    scanFrom position line = ⟨[], none⟩ :=
  scanFrom_blanks (List.all_eq_true.1 h) position

theorem scanFrom_of_isRemark {line : List Char} (h : isRemark line = true) (hline : '\n' ∉ line)
    (position : Nat) : scanFrom position line = ⟨[], none⟩ := by
  obtain ⟨rest, rfl⟩ : ∃ rest, line = ';' :: rest := by
    cases line with
    | nil => cases h
    | cons c rest => exact ⟨rest, by simpa [isRemark] using h⟩
  have hrest : rest.dropWhile (· != '\n') = [] := by
    refine List.dropWhile_eq_nil_iff.2 fun c hc => ?_
    have hne : c ≠ '\n' := by
      rintro rfl
      exact hline (List.mem_cons_of_mem _ hc)
    simpa using hne
  rw [scanFrom_remark, hrest, scanFrom]

/-- The lines that belong to no block have no tokens. -/
theorem scanFrom_of_not_isKept {line : List Char} (h : isKept line = false) (hline : '\n' ∉ line) :
    scanFrom 0 line = ⟨[], none⟩ := by
  cases hremark : isRemark line with
  | true => exact scanFrom_of_isRemark hremark hline 0
  | false => exact scanFrom_of_isGap (by simpa [isKept, hremark] using h) 0

theorem flatMap_filter_isKept {lines : List (List Char)} (h : ∀ line ∈ lines, '\n' ∉ line) :
    lines.flatMap tokensOf = (lines.filter isKept).flatMap tokensOf := by
  induction lines with
  | nil => rfl
  | cons line lines ih =>
      obtain ⟨hline, hlines⟩ := List.forall_mem_cons.1 h
      rw [List.flatMap_cons, ih hlines]
      cases hkept : isKept line with
      | true => rw [List.filter_cons_of_pos hkept, List.flatMap_cons]
      | false =>
          have htokens : tokensOf line = [] := by rw [tokensOf, scanFrom_of_not_isKept hkept hline]
          rw [List.filter_cons_of_neg (by simp [hkept]), htokens, List.nil_append]

/-- If the blocks of a text can be scanned, so can the text, and its tokens are theirs in order. -/
theorem tokensOf_eq_flatMap_blocks {text : List Char} (hreturn : '\r' ∉ text)
    (hmark : text.head? ≠ some '\ufeff') (h : ∀ block ∈ blocks (splitLines text), Scans block) :
    Scans text ∧ tokensOf text = (blocks (splitLines text)).flatMap tokensOf := by
  obtain ⟨parts, hblocks, hparts⟩ := blocks_eq (splitLines text)
  obtain ⟨hlines, htext⟩ := bodies_splitLines hreturn
  rw [← bodies_eq_map hmark] at hlines htext
  generalize bodies (splitLines text) = lines at hparts hlines htext
  rw [hblocks] at h ⊢
  have hpart : ∀ part ∈ parts, ∀ line ∈ part, Scans line := fun part hmem =>
    scans_blockText.1 (h _ (List.mem_map_of_mem hmem))
  -- the blocks cover the kept lines, and the dropped ones have nothing to scan
  have hscans : ∀ line ∈ lines, Scans line := by
    intro line hline
    cases hkept : isKept line with
    | true =>
        have hmem : line ∈ parts.flatten := by
          rw [hparts]
          exact List.mem_filter.2 ⟨hline, hkept⟩
        obtain ⟨part, hmem, hline⟩ := List.mem_flatten.1 hmem
        exact hpart part hmem line hline
    | false => rw [Scans, scanFrom_of_not_isKept hkept (hlines line hline)]
  have htokens : lines.flatMap tokensOf = (parts.map blockText).flatMap tokensOf :=
    calc lines.flatMap tokensOf
      _ = (lines.filter isKept).flatMap tokensOf := flatMap_filter_isKept hlines
      _ = parts.flatMap (·.flatMap tokensOf) := by
          rw [← hparts, List.flatMap_def, List.map_flatten, List.flatten_flatten, List.map_map]
          rfl
      _ = (parts.map blockText).flatMap tokensOf := by
          rw [List.flatMap_map]
          exact List.flatMap_congr fun part hmem => (tokensOf_blockText (hpart part hmem)).symm
  rcases htext with htext | htext
  · rw [← htext, scans_blockText, tokensOf_blockText hscans]
    exact ⟨hscans, htokens⟩
  · have hnil : tokensOf [] = [] := by simp [tokensOf, scanFrom]
    have hwhole : Scans (blockText lines) := scans_blockText.2 hscans
    rw [← tokensOf_blockText hscans] at htokens
    rw [htext] at hwhole htokens
    obtain ⟨htext, -⟩ := scans_newline.1 hwhole
    rw [tokensOf_newline htext, hnil, List.append_nil] at htokens
    exact ⟨htext, htokens⟩

end Source

end BelLisp
