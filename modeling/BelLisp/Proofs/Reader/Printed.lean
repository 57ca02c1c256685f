import BelLisp.Proofs.Reader.Legible

/-!
# The tokens of a printed object

`Datum.tokens` lists the tokens that stand in the readable form of an object, taken from the object
itself. If the object is legible, they are what the scanner finds there (`scan_text`): brackets and
spaces end every name where it should end, and nothing is left over.
-/

set_option autoImplicit false

namespace BelLisp

namespace Token

/-- An opening bracket. -/
def opening : Token := ⟨.openBracket, "("⟩

/-- A closing bracket. -/
def closing : Token := ⟨.closeBracket, ")"⟩

/-- The dot, which is an ordinary symbol for the scanner. -/
def dot : Token := ⟨.sym, "."⟩

/-- The token of a symbol. -/
def ofSymbol (name : String) : Token := ⟨.sym, name⟩

/-- The token of a character. -/
def ofChar (text : String) : Token := ⟨.chr, String.ofList ('\\' :: text.toList)⟩

@[simp] theorem kind_opening : opening.kind = .openBracket := rfl

@[simp] theorem kind_dot : dot.kind = .sym := rfl

@[simp] theorem kind_ofSymbol (name : String) : (ofSymbol name).kind = .sym := rfl

@[simp] theorem kind_ofChar (text : String) : (ofChar text).kind = .chr := rfl

end Token

namespace Datum

mutual

/-- The tokens of an object in its readable form. -/
def tokens : Datum → List Token
  | .pair car cdr => .opening :: (tokens car ++ tailTokens cdr)
  | .sym name => [.ofSymbol name]
  | .chr text => [.ofChar text]
  | .stream => []

/-- The tokens that follow the first element of a list, the closing bracket included. -/
def tailTokens : Datum → List Token
  | .pair car cdr => tokens car ++ tailTokens cdr
  | .sym name => if name = "nil" then [.closing] else [.dot, .ofSymbol name, .closing]
  | .chr text => [.dot, .ofChar text, .closing]
  | .stream => [.dot, .closing]

end

end Datum

/-- Puts tokens in front. -/
def Scan.prepend (tokens : List Token) (scan : Scan) : Scan :=
  { scan with tokens := tokens ++ scan.tokens }

theorem Scan.prepend_prepend (first second : List Token) (scan : Scan) :
    (scan.prepend second).prepend first = scan.prepend (first ++ second) := by
  simp [Scan.prepend, List.append_assoc]

/-- The characters are cut into exactly these tokens wherever something follows that ends a
token. -/
def ScansTo (chars : List Char) (tokens : List Token) : Prop :=
  ∀ (position : Nat) (rest : List Char), (∀ c ∈ rest.head?, isDelimiter c = true) →
    ∃ position', scanFrom position (chars ++ rest) = (scanFrom position' rest).prepend tokens

/-! ## Pieces of a printed object -/

theorem letters_end {c : Char} (h : isDelimiter c = true) :
    isSymbolLetter c = false ∧ isCharLetter c = false := by
  simp [isSymbolLetter, isCharLetter, h]

theorem scansTo_symbol {name : String} (h : (Datum.sym name).Legible) :
    ScansTo name.toList [.ofSymbol name] := by
  intro position rest hrest
  refine ⟨position + name.toList.length, ?_⟩
  rw [scanFrom_symbol h.toList_ne_nil (fun c hc => isSymbolLetter_iff.2 (h.2 c hc))
    (fun c hc => (letters_end (hrest c hc)).1)]
  show Scan.mk (⟨.sym, String.ofList name.toList⟩ :: _) _ = _
  rw [String.ofList_toList]
  rfl

theorem scansTo_char {text : String} (h : (Datum.chr text).Legible) :
    ScansTo ('\\' :: text.toList) [.ofChar text] := by
  intro position rest hrest
  refine ⟨position + 1 + text.toList.length, ?_⟩
  rw [List.cons_append, scanFrom_char h.toList_ne_nil (fun c hc => isCharLetter_iff.2 (h.2 c hc))
    (fun c hc => (letters_end (hrest c hc)).2)]
  rfl

theorem scansTo_close : ScansTo [')'] [.closing] :=
  fun position rest _ => ⟨position + 1, scanFrom_close position rest⟩

theorem scansTo_dot : ScansTo ['.'] [.dot] := by
  have hlegible : (Datum.sym ".").Legible := Datum.legible_sym_of_all (by decide) (by decide)
  exact scansTo_symbol hlegible

namespace ScansTo

variable {chars chars' : List Char} {tokens tokens' : List Token}

theorem space (h : ScansTo chars tokens) : ScansTo (' ' :: chars) tokens := by
  intro position rest hrest
  obtain ⟨position', hscan⟩ := h (position + 1) rest hrest
  exact ⟨position', by rw [List.cons_append, scanFrom_blank (by decide), hscan]⟩

theorem open_bracket (h : ScansTo chars tokens) : ScansTo ('(' :: chars) (.opening :: tokens) := by
  intro position rest hrest
  obtain ⟨position', hscan⟩ := h (position + 1) rest hrest
  refine ⟨position', ?_⟩
  rw [List.cons_append, scanFrom_open, hscan]
  rfl

/-- Two pieces in sequence, of which the second starts with something that ends a token. -/
theorem append (h : ScansTo chars tokens) (h' : ScansTo chars' tokens')
    (hstart : ∃ c ∈ chars'.head?, isDelimiter c = true) :
    ScansTo (chars ++ chars') (tokens ++ tokens') := by
  intro position rest hrest
  -- the first piece is followed by the start of the second, which ends its last token
  obtain ⟨c, hc, hdelimiter⟩ := hstart
  have hhead : (chars' ++ rest).head? = some c := by
    rw [List.head?_append, hc]
    rfl
  obtain ⟨position₁, hscan₁⟩ := h position (chars' ++ rest) (by
    intro d hd
    rw [hhead] at hd
    cases hd
    exact hdelimiter)
  obtain ⟨position₂, hscan₂⟩ := h' position₁ rest hrest
  exact ⟨position₂, by rw [List.append_assoc, hscan₁, hscan₂, Scan.prepend_prepend]⟩

end ScansTo

/-! ## Whole objects -/

theorem Datum.head?_tailChars (d : Datum) : ∃ c ∈ d.tailChars.head?, isDelimiter c = true := by
  cases d with
  | pair car cdr => exact ⟨' ', rfl, by decide⟩
  | sym name =>
      by_cases hnil : name = "nil"
      · exact ⟨')', by simp [tailChars, hnil], by decide⟩
      · exact ⟨' ', by simp [tailChars, hnil], by decide⟩
  | chr text => exact ⟨' ', rfl, by decide⟩
  | stream => exact ⟨' ', rfl, by decide⟩

theorem ScansTo.dotted {chars : List Char} {tokens : List Token} (h : ScansTo chars tokens) :
    ScansTo (' ' :: '.' :: ' ' :: (chars ++ [')'])) (.dot :: (tokens ++ [.closing])) := by
  have hclosed : ScansTo (chars ++ [')']) (tokens ++ [.closing]) :=
    h.append scansTo_close ⟨')', rfl, by decide⟩
  exact (scansTo_dot.append hclosed.space ⟨' ', rfl, by decide⟩).space

/-- The readable form of a legible object, and the rest of a list in it, are cut into their
tokens. -/
theorem scansTo_chars (d : Datum) (h : d.Legible) :
    ScansTo d.chars d.tokens ∧ ScansTo d.tailChars d.tailTokens := by
  induction d with
  | pair car cdr ihCar ihCdr =>
      obtain ⟨hcar, hcdr⟩ := h
      have hboth : ScansTo (car.chars ++ cdr.tailChars) (car.tokens ++ cdr.tailTokens) :=
        (ihCar hcar).1.append (ihCdr hcdr).2 cdr.head?_tailChars
      exact ⟨hboth.open_bracket, hboth.space⟩
  | sym name =>
      refine ⟨scansTo_symbol h, ?_⟩
      by_cases hnil : name = "nil"
      · simpa only [Datum.tailChars, Datum.tailTokens, if_pos hnil] using scansTo_close
      · simp only [Datum.tailChars, Datum.tailTokens, if_neg hnil]
        exact (scansTo_symbol h).dotted
  | chr text => exact ⟨scansTo_char h, (scansTo_char h).dotted⟩
  | stream => exact h.elim

/-- A text of such characters alone has these tokens and no others. -/
theorem ScansTo.scan_ofList {chars : List Char} {tokens : List Token} (h : ScansTo chars tokens) :
    scan (String.ofList chars) = ⟨tokens, none⟩ := by
  obtain ⟨position, hscan⟩ := h 0 [] (by simp)
  have hend : scanFrom position [] = ⟨[], none⟩ := by rw [scanFrom]
  rw [hend, List.append_nil] at hscan
  rw [scan, String.toList_ofList, hscan]
  simp [Scan.prepend]

/-- The readable form of a legible object has the tokens of the object and no others. -/
theorem scan_text {d : Datum} (h : d.Legible) : scan d.text = ⟨d.tokens, none⟩ :=
  (scansTo_chars d h).1.scan_ofList

end BelLisp
