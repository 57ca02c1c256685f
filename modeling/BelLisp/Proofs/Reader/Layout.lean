import BelLisp.Proofs.Reader.Joined

/-!
# Every character of a text is accounted for

A layout takes a text apart into a gap, tokens each with the gap behind it, and a rest. A gap is
blanks and comments, a comment runs to the end of its line, and a character or symbol goes on as far
as its letters do; what all this means depends on the characters that follow, so gaps and tokens are
described in front of them (`IsGap`, `IsToken`). The rest is empty, or starts with a backslash that
no letter follows.

Every text has exactly one layout, and the scanner follows it: it hands out the tokens of the layout
and ends with a fault exactly if there is a rest, at the place where the rest starts
(`scan_follows_layout`).
-/

set_option autoImplicit false

namespace BelLisp

/-- Nothing follows, or a blank or one of the marks does. -/
def Text.EndsPlain (marks : String) (rest : List Char) : Prop :=
  ∀ c ∈ rest.head?, Text.isBlank c = true ∨ c ∈ marks.toList

/-- The characters are blanks and comments in front of `rest`. A comment goes from a semicolon up to
the next newline or the end of the text. -/
inductive IsGap (rest : List Char) : List Char → Prop
  | nil : IsGap rest []
  | blank {c : Char} {gap : List Char} :
      Text.isBlank c = true → IsGap rest gap → IsGap rest (c :: gap)
  | remark {text gap : List Char} :
      '\n' ∉ text → AtLineEnd (gap ++ rest) → IsGap rest gap → IsGap rest (';' :: (text ++ gap))

/-- The token stands in front of `rest`: it is a quote mark, a bracket, or a character or symbol
that goes on as far as its letters do. -/
inductive IsToken (rest : List Char) : Token → Prop
  | quote {mark : String} : mark = "'" ∨ mark = "`" → IsToken rest ⟨.quote, mark⟩
  | opening : IsToken rest .opening
  | closing : IsToken rest .closing
  | char {name : String} :
      Text.IsPlain charMarks name → Text.EndsPlain charMarks rest → IsToken rest (.ofChar name)
  | symbol {name : String} :
      Text.IsPlain symbolMarks name → Text.EndsPlain symbolMarks rest →
        IsToken rest (.ofSymbol name)

/-- The characters start with a backslash that no letter follows. -/
def IsStray (chars : List Char) : Prop :=
  ∃ more, chars = '\\' :: more ∧ Text.EndsPlain charMarks more

/-- A text taken apart: the first gap, the tokens each with the gap behind it, and the rest. -/
structure Layout where
  gap : List Char
  items : List (Token × List Char)
  rest : List Char

namespace Layout

/-- The characters of tokens and of the gaps behind them. -/
def charsOf (items : List (Token × List Char)) : List Char :=
  items.flatMap fun item => item.1.text.toList ++ item.2

/-- The tokens in order. -/
def tokens (layout : Layout) : List Token := layout.items.map Prod.fst

/-- The characters before the rest. -/
def used (layout : Layout) : List Char := layout.gap ++ charsOf layout.items

/-- Every token is one in front of what follows it, and so is every gap behind a token. -/
def Fits (rest : List Char) : List (Token × List Char) → Prop
  | [] => True
  | (token, gap) :: items =>
    IsToken (gap ++ (charsOf items ++ rest)) token ∧ IsGap (charsOf items ++ rest) gap ∧
      Fits rest items

/-- The layout is one of the given characters. -/
structure Cuts (layout : Layout) (chars : List Char) : Prop where
  chars_eq : chars = layout.gap ++ (charsOf layout.items ++ layout.rest)
  gap : IsGap (charsOf layout.items ++ layout.rest) layout.gap
  items : Fits layout.rest layout.items
  rest : layout.rest = [] ∨ IsStray layout.rest

end Layout

/-! ## Letters -/

theorem not_isCharLetter_iff {c : Char} :
    isCharLetter c = false ↔ Text.isBlank c = true ∨ c ∈ charMarks.toList := by
  rw [← Bool.not_eq_true, isCharLetter_iff]
  cases Text.isBlank c <;> simp

theorem not_isSymbolLetter_iff {c : Char} :
    isSymbolLetter c = false ↔ Text.isBlank c = true ∨ c ∈ symbolMarks.toList := by
  rw [← Bool.not_eq_true, isSymbolLetter_iff]
  cases Text.isBlank c <;> simp

/-- What is behind the longest run of letters does not start with one. -/
theorem head?_dropWhile {p : Char → Bool} {chars : List Char} :
    ∀ c ∈ (chars.dropWhile p).head?, p c = false := by
  intro c hc
  have hnot := List.head?_dropWhile_not p chars
  rw [hc] at hnot
  simpa using hnot

/-- A comment is the run of characters up to the newline. -/
theorem span_remark {text rest : List Char} (htext : '\n' ∉ text) (hrest : AtLineEnd rest) :
    (text ++ rest).takeWhile (· != '\n') = text ∧ (text ++ rest).dropWhile (· != '\n') = rest := by
  apply span_letters
  · intro c hc
    have hne : c ≠ '\n' := fun heq => htext (heq ▸ hc)
    simpa using hne
  · intro c hc
    simp [hrest c hc]

/-- A run of letters behind a backslash is a character if no letter follows. -/
theorem isToken_char {letters rest : List Char} (hne : letters ≠ [])
    (hletters : ∀ c ∈ letters, isCharLetter c = true)
    (hrest : ∀ c ∈ rest.head?, isCharLetter c = false) :
    IsToken rest ⟨.chr, String.ofList ('\\' :: letters)⟩ := by
  have hplain : Text.IsPlain charMarks (String.ofList letters) :=
    isPlain_ofList_iff.2 ⟨hne, fun c hc => isCharLetter_iff.1 (hletters c hc)⟩
  have htoken := IsToken.char hplain fun c hc => not_isCharLetter_iff.1 (hrest c hc)
  rw [Token.ofChar, String.toList_ofList] at htoken
  exact htoken

/-- A run of letters is a symbol if no letter follows. -/
theorem isToken_symbol {letters rest : List Char} (hne : letters ≠ [])
    (hletters : ∀ c ∈ letters, isSymbolLetter c = true)
    (hrest : ∀ c ∈ rest.head?, isSymbolLetter c = false) :
    IsToken rest ⟨.sym, String.ofList letters⟩ := by
  have hplain : Text.IsPlain symbolMarks (String.ofList letters) :=
    isPlain_ofList_iff.2 ⟨hne, fun c hc => isSymbolLetter_iff.1 (hletters c hc)⟩
  exact .symbol hplain fun c hc => not_isSymbolLetter_iff.1 (hrest c hc)

/-! ## The scanner on gaps and tokens -/

/-- A gap is skipped. -/
theorem IsGap.scanFrom_append {rest gap : List Char} (h : IsGap rest gap) (position : Nat) :
    scanFrom position (gap ++ rest) = scanFrom (position + gap.length) rest := by
  induction h generalizing position with
  | nil => rfl
  | blank hblank _ ih =>
      rw [List.cons_append, scanFrom_blank hblank, ih, List.length_cons, Nat.add_assoc,
        Nat.add_comm 1]
  | @remark text gap htext hend _ ih =>
      obtain ⟨htake, hdrop⟩ := span_remark htext hend
      rw [List.cons_append, List.append_assoc, scanFrom_remark, htake, hdrop, ih,
        List.length_cons, List.length_append]
      congr 1
      omega

/-- A token is handed out. -/
theorem IsToken.scanFrom_append {rest : List Char} {token : Token} (h : IsToken rest token)
    (position : Nat) :
    scanFrom position (token.text.toList ++ rest) =
      (scanFrom (position + token.text.toList.length) rest).prepend [token] := by
  cases h with
  | quote hmark =>
      rcases hmark with rfl | rfl
      · exact scanFrom_quote rfl position rest
      · exact scanFrom_quote rfl position rest
  | opening => exact scanFrom_open position rest
  | closing => exact scanFrom_close position rest
  | @char name hplain hend =>
      have htext : (Token.ofChar name).text.toList = '\\' :: name.toList := String.toList_ofList
      rw [htext, List.cons_append,
        scanFrom_char hplain.toList_ne_nil (fun c hc => isCharLetter_iff.2 (hplain.2 c hc))
          (fun c hc => not_isCharLetter_iff.2 (hend c hc)),
        List.length_cons, Nat.add_assoc, Nat.add_comm 1]
      rfl
  | @symbol name hplain hend =>
      have htext : (Token.ofSymbol name).text.toList = name.toList := rfl
      rw [htext,
        scanFrom_symbol hplain.toList_ne_nil (fun c hc => isSymbolLetter_iff.2 (hplain.2 c hc))
          (fun c hc => not_isSymbolLetter_iff.2 (hend c hc))]
      show Scan.mk (⟨.sym, String.ofList name.toList⟩ :: _) _ = _
      rw [String.ofList_toList]
      rfl

theorem IsStray.scanFrom_eq {chars : List Char} (h : IsStray chars) (position : Nat) :
    scanFrom position chars = ⟨[], some (.strayChar position '\\')⟩ := by
  obtain ⟨more, rfl, hend⟩ := h
  exact scanFrom_stray (fun c hc => not_isCharLetter_iff.2 (hend c hc)) position

theorem IsStray.ne_nil {chars : List Char} (h : IsStray chars) : chars ≠ [] := by
  obtain ⟨more, rfl, -⟩ := h
  exact List.cons_ne_nil _ _

namespace Layout

theorem charsOf_cons (token : Token) (gap : List Char) (items : List (Token × List Char)) :
    charsOf ((token, gap) :: items) = token.text.toList ++ (gap ++ charsOf items) := by
  simp [charsOf]

/-- The scanner hands out fitting tokens, and skips the gaps behind them. -/
theorem scanFrom_charsOf {rest : List Char} {items : List (Token × List Char)}
    (h : Fits rest items) (position : Nat) :
    scanFrom position (charsOf items ++ rest) =
      (scanFrom (position + (charsOf items).length) rest).prepend (items.map Prod.fst) := by
  induction items generalizing position with
  | nil => rfl
  | cons item items ih =>
      rcases item with ⟨token, gap⟩
      obtain ⟨htoken, hgap, hitems⟩ := h
      rw [charsOf_cons, List.append_assoc, List.append_assoc, htoken.scanFrom_append,
        hgap.scanFrom_append, ih hitems, Scan.prepend_prepend]
      simp only [List.length_append, List.map_cons, List.singleton_append, Nat.add_assoc]

/-- The scanner hands out the tokens of a layout and goes on with the rest. -/
theorem Cuts.scanFrom_eq {layout : Layout} {chars : List Char} (h : layout.Cuts chars) :
    scanFrom 0 chars = (scanFrom layout.used.length layout.rest).prepend layout.tokens := by
  rw [h.chars_eq, h.gap.scanFrom_append, scanFrom_charsOf h.items, Nat.zero_add, used,
    List.length_append, tokens]

/-! ## Every text has a layout -/

namespace Cuts

variable {layout : Layout} {chars : List Char}

theorem nil : Cuts ⟨[], [], []⟩ [] := ⟨rfl, .nil, trivial, .inl rfl⟩

theorem stray (h : IsStray chars) : Cuts ⟨[], [], chars⟩ chars := ⟨rfl, .nil, trivial, .inr h⟩

theorem blank (h : layout.Cuts chars) {c : Char} (hblank : Text.isBlank c = true) :
    Cuts { layout with gap := c :: layout.gap } (c :: chars) :=
  ⟨congrArg (c :: ·) h.chars_eq, .blank hblank h.gap, h.items, h.rest⟩

theorem remark (h : layout.Cuts chars) {text : List Char} (htext : '\n' ∉ text)
    (hend : AtLineEnd chars) :
    Cuts { layout with gap := ';' :: (text ++ layout.gap) } (';' :: (text ++ chars)) := by
  have hchars := h.chars_eq
  rw [hchars] at hend
  refine ⟨?_, .remark htext hend h.gap, h.items, h.rest⟩
  rw [hchars, List.cons_append, List.append_assoc]

theorem token (h : layout.Cuts chars) {token : Token} (htoken : IsToken chars token) :
    Cuts ⟨[], (token, layout.gap) :: layout.items, layout.rest⟩ (token.text.toList ++ chars) := by
  have hchars := h.chars_eq
  rw [hchars] at htoken
  refine ⟨?_, .nil, ⟨htoken, h.gap, h.items⟩, h.rest⟩
  rw [hchars, charsOf_cons, List.nil_append, List.append_assoc, List.append_assoc]

end Cuts

/-- The scanner's own tests on the first character take every text apart. -/
theorem exists_cuts (chars : List Char) : ∃ layout : Layout, layout.Cuts chars := by
  fun_induction scanFrom 0 chars with
  | case1 => exact ⟨_, .nil⟩
  | case2 position c rest hblank ih =>
      obtain ⟨layout, h⟩ := ih
      exact ⟨_, h.blank hblank⟩
  | case3 position rest _ ih =>
      obtain ⟨layout, h⟩ := ih
      have htext : '\n' ∉ rest.takeWhile (· != '\n') := by
        intro hmem
        simpa using List.all_eq_true.1 List.all_takeWhile _ hmem
      have hend : AtLineEnd (rest.dropWhile (· != '\n')) := by
        intro c hc
        simpa using head?_dropWhile c hc
      have hcuts := h.remark htext hend
      rw [List.takeWhile_append_dropWhile] at hcuts
      exact ⟨_, hcuts⟩
  | case4 position c rest _ _ hquote ih =>
      obtain ⟨layout, h⟩ := ih
      have hmark : c = '\x27' ∨ c = '\x60' := by simpa [isQuoteMark] using hquote
      rcases hmark with rfl | rfl
      · exact ⟨_, h.token (.quote (.inl rfl))⟩
      · exact ⟨_, h.token (.quote (.inr rfl))⟩
  | case5 position rest _ _ _ ih =>
      obtain ⟨layout, h⟩ := ih
      exact ⟨_, h.token .opening⟩
  | case6 position rest _ _ _ _ ih =>
      obtain ⟨layout, h⟩ := ih
      exact ⟨_, h.token .closing⟩
  | case7 position rest letters hempty =>
      -- no letter follows the backslash, so what follows it is left whole
      have hnone : rest.takeWhile isCharLetter = [] := List.isEmpty_iff.1 hempty
      have hrest : rest.dropWhile isCharLetter = rest := by
        have hsplit := @List.takeWhile_append_dropWhile _ isCharLetter rest
        rwa [hnone] at hsplit
      refine ⟨_, .stray ⟨rest, rfl, fun c hc => not_isCharLetter_iff.1 ?_⟩⟩
      rw [← hrest] at hc
      exact head?_dropWhile c hc
  | case8 position rest letters hsome _ _ _ _ _ ih =>
      obtain ⟨layout, h⟩ := ih
      have hne : letters ≠ [] := fun hnil => hsome (List.isEmpty_iff.2 hnil)
      have hcuts := h.token
        (isToken_char hne (List.all_eq_true.1 List.all_takeWhile) head?_dropWhile)
      rw [String.toList_ofList, List.cons_append, List.takeWhile_append_dropWhile] at hcuts
      exact ⟨_, hcuts⟩
  | case9 position c rest hblank hremark hquote hopen hclose hchar letters ih =>
      -- what is nothing else is the first letter of a symbol
      obtain ⟨layout, h⟩ := ih
      have hc := isSymbolLetter_of_not hblank hremark hquote hopen hclose hchar
      have hletters : ∀ d ∈ c :: letters, isSymbolLetter d = true :=
        List.forall_mem_cons.2 ⟨hc, List.all_eq_true.1 List.all_takeWhile⟩
      have hcuts := h.token (isToken_symbol (List.cons_ne_nil _ _) hletters head?_dropWhile)
      rw [String.toList_ofList, List.cons_append, List.takeWhile_append_dropWhile] at hcuts
      exact ⟨_, hcuts⟩

end Layout

/-! ## No text has two layouts -/

/-- No gap starts here: nothing follows, or something that is neither blank nor a semicolon. -/
def AtToken (chars : List Char) : Prop :=
  ∀ c ∈ chars.head?, Text.isBlank c = false ∧ c ≠ ';'

theorem IsToken.atToken {rest : List Char} {token : Token} (h : IsToken rest token)
    (more : List Char) : AtToken (token.text.toList ++ more) := by
  intro c hc
  cases h with
  | quote hmark =>
      rcases hmark with rfl | rfl
      · cases hc
        decide
      · cases hc
        decide
  | opening =>
      cases hc
      decide
  | closing =>
      cases hc
      decide
  | @char name hplain hend =>
      have htext : (Token.ofChar name).text.toList = '\\' :: name.toList := String.toList_ofList
      rw [htext] at hc
      cases hc
      decide
  | @symbol name hplain hend =>
      -- the first letter of a symbol is one, like all the others
      obtain ⟨first, letters, hname⟩ := List.exists_cons_of_ne_nil hplain.toList_ne_nil
      have htext : (Token.ofSymbol name).text.toList = first :: letters := hname
      rw [htext] at hc
      cases hc
      obtain ⟨hblank, hmarks⟩ := hplain.2 c (by rw [hname]; exact List.mem_cons_self)
      refine ⟨hblank, ?_⟩
      rintro rfl
      exact hmarks (by decide)

/-- In front of a token there is no gap but the empty one. -/
theorem IsGap.eq_nil {rest gap : List Char} (h : IsGap rest gap) (hat : AtToken (gap ++ rest)) :
    gap = [] := by
  cases h with
  | nil => rfl
  | @blank c gap hblank _ =>
      have hc := (hat c rfl).1
      rw [hblank] at hc
      cases hc
  | remark _ _ _ => exact absurd rfl (hat ';' rfl).2

/-- A gap in front of a token is as long as it can be, so it is given by the text. -/
theorem IsGap.unique {rest rest' gap gap' : List Char} (h : IsGap rest gap)
    (h' : IsGap rest' gap') (hrest : AtToken rest) (hrest' : AtToken rest')
    (hchars : gap ++ rest = gap' ++ rest') : gap = gap' := by
  -- along the first gap; the text has the second one start with the same blank or comment
  induction h generalizing gap' with
  | nil =>
      rw [List.nil_append] at hchars
      rw [hchars] at hrest
      exact (h'.eq_nil hrest).symm
  | @blank c gap hblank hgap ih =>
      cases h' with
      | nil =>
          rw [List.nil_append] at hchars
          rw [← hchars] at hrest'
          exact (IsGap.blank hblank hgap).eq_nil hrest'
      | @blank c' gap' _ hgap' =>
          obtain ⟨rfl, hmore⟩ := List.cons.inj hchars
          rw [ih hgap' hmore]
      | remark _ _ _ =>
          obtain ⟨rfl, -⟩ := List.cons.inj hchars
          cases hblank
  | @remark text gap htext hend hgap ih =>
      cases h' with
      | nil =>
          rw [List.nil_append] at hchars
          rw [← hchars] at hrest'
          exact (IsGap.remark htext hend hgap).eq_nil hrest'
      | blank hblank _ =>
          obtain ⟨rfl, -⟩ := List.cons.inj hchars
          cases hblank
      | @remark text' gap' htext' hend' hgap' =>
          rw [List.cons_append, List.cons_append, List.append_assoc, List.append_assoc] at hchars
          obtain ⟨-, hchars⟩ := List.cons.inj hchars
          -- both comments go up to the same newline
          obtain ⟨htake, hdrop⟩ := span_remark htext hend
          obtain ⟨htake', hdrop'⟩ := span_remark htext' hend'
          rw [hchars, htake'] at htake
          rw [hchars, hdrop'] at hdrop
          rw [ih hgap' hdrop.symm, htake]

namespace Layout

theorem atToken_charsOf {rest : List Char} {items : List (Token × List Char)}
    (h : Fits rest items) (hrest : rest = [] ∨ IsStray rest) : AtToken (charsOf items ++ rest) := by
  cases items with
  | nil =>
      rcases hrest with rfl | ⟨more, rfl, -⟩
      · intro c hc
        cases hc
      · intro c hc
        cases hc
        decide
  | cons item items =>
      rcases item with ⟨token, gap⟩
      rw [charsOf_cons, List.append_assoc]
      exact h.1.atToken _

/-- With the same tokens and the same rest, the same text has the same gaps. -/
theorem gaps_unique {rest gap gap' : List Char} {items items' : List (Token × List Char)}
    (hrest : rest = [] ∨ IsStray rest) (hitems : Fits rest items) (hitems' : Fits rest items')
    (hgap : IsGap (charsOf items ++ rest) gap) (hgap' : IsGap (charsOf items' ++ rest) gap')
    (htokens : items.map Prod.fst = items'.map Prod.fst)
    (hchars : gap ++ (charsOf items ++ rest) = gap' ++ (charsOf items' ++ rest)) :
    gap = gap' ∧ items = items' := by
  induction items generalizing gap gap' items' with
  | nil =>
      obtain rfl := List.map_eq_nil_iff.1 htokens.symm
      exact ⟨List.append_cancel_right hchars, rfl⟩
  | cons item items ih =>
      rcases item with ⟨token, between⟩
      rcases items' with - | ⟨⟨token', between'⟩, items'⟩
      · cases htokens
      obtain ⟨rfl, hmore⟩ := List.cons.inj htokens
      obtain rfl := hgap.unique hgap' (atToken_charsOf hitems hrest)
        (atToken_charsOf hitems' hrest) hchars
      -- behind the first gap stands the same token on both sides, and then the next gap
      rw [charsOf_cons, charsOf_cons] at hchars
      simp only [List.append_assoc, List.append_cancel_left_eq] at hchars
      obtain ⟨-, hgap, hitems⟩ := hitems
      obtain ⟨-, hgap', hitems'⟩ := hitems'
      obtain ⟨rfl, rfl⟩ := ih hitems hitems' hgap hgap' hmore hchars
      exact ⟨rfl, rfl⟩

theorem Cuts.eq_append_rest {layout : Layout} {chars : List Char} (h : layout.Cuts chars) :
    chars = layout.used ++ layout.rest := by
  rw [used, List.append_assoc]
  exact h.chars_eq

/-- The scanner hands out the tokens of the layout, and reports where a rest starts. -/
theorem Cuts.scanFrom_eq_mk {layout : Layout} {chars : List Char} (h : layout.Cuts chars) :
    scanFrom 0 chars = ⟨layout.tokens,
      if layout.rest = [] then none else some (.strayChar layout.used.length '\\')⟩ := by
  rw [h.scanFrom_eq]
  rcases h.rest with hrest | hrest
  · rw [hrest, scanFrom]
    simp [Scan.prepend]
  · rw [hrest.scanFrom_eq, if_neg hrest.ne_nil]
    simp [Scan.prepend]

theorem Cuts.rest_unique {layout other : Layout} {chars : List Char} (h : layout.Cuts chars)
    (h' : other.Cuts chars) : other.rest = layout.rest := by
  have hfault := congrArg Scan.fault (h'.scanFrom_eq_mk.symm.trans h.scanFrom_eq_mk)
  by_cases hnil : layout.rest = []
  · by_cases hnil' : other.rest = []
    · rw [hnil, hnil']
    · simp only [if_neg hnil', if_pos hnil] at hfault
      cases hfault
  · by_cases hnil' : other.rest = []
    · simp only [if_pos hnil', if_neg hnil] at hfault
      cases hfault
    · -- both rests start at the place that the fault names
      simp only [if_neg hnil, if_neg hnil', Option.some.injEq, ReadFault.strayChar.injEq,
        and_true] at hfault
      have hchars := h'.eq_append_rest.symm.trans h.eq_append_rest
      exact (List.append_inj hchars hfault).2

theorem Cuts.unique {layout other : Layout} {chars : List Char} (h : layout.Cuts chars)
    (h' : other.Cuts chars) : other = layout := by
  have htokens : other.tokens = layout.tokens :=
    congrArg Scan.tokens (h'.scanFrom_eq_mk.symm.trans h.scanFrom_eq_mk)
  have hrest := h.rest_unique h'
  rcases layout with ⟨gap, items, rest⟩
  rcases other with ⟨gap', items', rest'⟩
  obtain rfl : rest' = rest := hrest
  have hchars := h'.chars_eq.symm.trans h.chars_eq
  obtain ⟨rfl, rfl⟩ := gaps_unique h.rest h'.items h.items h'.gap h.gap htokens hchars
  rfl

end Layout

/-- The rest starts with its backslash at the place behind what was used. -/
theorem Layout.Cuts.getElem?_used {layout : Layout} {chars : List Char} (h : layout.Cuts chars)
    (hstray : IsStray layout.rest) : chars[layout.used.length]? = some '\\' := by
  obtain ⟨more, hrest, -⟩ := hstray
  rw [h.eq_append_rest, List.getElem?_append_right (Nat.le_refl _), Nat.sub_self, hrest]
  rfl

theorem Text.quoted_backslash : Text.quoted (String.singleton '\\') = "'\\\\'" := by
  have hmark : Text.quoteMark (String.singleton '\\').toList = '\x27' := by decide
  have hchar : Text.quotedChar '\x27' '\\' = ['\\', '\\'] := rfl
  rw [Text.quoted, hmark]
  simp [hchar]

theorem message_strayChar_backslash (position : Nat) :
    (ReadFault.strayChar position '\\').message =
      "Unexpected char at " ++ toString position ++ ": '\\\\'" := by
  show "Unexpected char at " ++ toString position ++ ": " ++ Text.quoted (String.singleton '\\') = _
  rw [Text.quoted_backslash, String.append_assoc]
  rfl

/-- **Every character is accounted for.** A text has exactly one layout. The scanner hands out its
tokens; it ends without a fault exactly if there is no rest, and with a fault exactly if the rest
starts with a backslash that no letter follows. The message gives the place of that backslash. -/
theorem scan_follows_layout (source : String) :
    ∃ layout : Layout, layout.Cuts source.toList ∧
      (∀ other : Layout, other.Cuts source.toList → other = layout) ∧
      (scan source).tokens = layout.tokens ∧
      ((scan source).fault = none ↔ layout.rest = []) ∧
      ((∃ fault, (scan source).fault = some fault) ↔ IsStray layout.rest) ∧
      ∀ fault, (scan source).fault = some fault →
        source.toList[layout.used.length]? = some '\\' ∧ fault.message =
          "Unexpected char at " ++ toString layout.used.length ++ ": '\\\\'" := by
  obtain ⟨layout, h⟩ := Layout.exists_cuts source.toList
  have hscan : scan source = ⟨layout.tokens, _⟩ := h.scanFrom_eq_mk
  refine ⟨layout, h, fun other h' => h.unique h', by rw [hscan], ?_⟩
  rw [hscan]
  rcases h.rest with hnil | hstray
  · have hnone : ¬ IsStray [] := fun hstray => hstray.ne_nil rfl
    simp [hnil, hnone]
  · refine ⟨by simp [hstray.ne_nil], by simp [hstray, hstray.ne_nil], fun fault hfault => ?_⟩
    rw [if_neg hstray.ne_nil] at hfault
    cases hfault
    exact ⟨h.getElem?_used hstray, message_strayChar_backslash _⟩

end BelLisp
