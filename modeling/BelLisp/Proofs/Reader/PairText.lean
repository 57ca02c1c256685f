import BelLisp.Proofs.Reader.Grammar

/-!
# Every legible object can be written down

List notation cannot say everything: a dot that is an element of a list, but not its first, is taken
for the mark before the last tail. Pair notation can. It writes every pair as `(CAR . CDR)`, where
the dot behind the first element is always that mark, and where a symbol in the place of `CAR` or
`CDR` is a symbol even if it is a dot. So a legible object is read back from its pair notation
(`read_pairText`), and the objects that some text is read as are the legible ones
(`exists_read_eq_ok_iff`).
-/

set_option autoImplicit false

namespace BelLisp

namespace Datum

/-- The characters of an object with every pair written as `(CAR . CDR)`. -/
def pairChars : Datum → List Char
  | .pair car cdr => '(' :: (pairChars car ++ ' ' :: '.' :: ' ' :: (pairChars cdr ++ [')']))
  | .sym name => atomChars (.sym name)
  | .chr text => atomChars (.chr text)
  | .stream => atomChars .stream

/-- The object in pair notation. -/
def pairText (d : Datum) : String := String.ofList d.pairChars

/-- The tokens of an object in pair notation. -/
def pairTokens : Datum → List Token
  | .pair car cdr => .opening :: (pairTokens car ++ .dot :: (pairTokens cdr ++ [.closing]))
  | .sym name => [.ofSymbol name]
  | .chr text => [.ofChar text]
  | .stream => []

end Datum

/-- The pair notation of a legible object is cut into its tokens. -/
theorem scansTo_pairChars (d : Datum) (h : d.Legible) : ScansTo d.pairChars d.pairTokens := by
  induction d with
  | pair car cdr ihCar ihCdr =>
      obtain ⟨hcar, hcdr⟩ := h
      -- the space before the dot ends the last token of the first part
      have hparts := (ihCar hcar).append (ihCdr hcdr).dotted ⟨' ', rfl, by decide⟩
      exact hparts.open_bracket
  | sym name => exact scansTo_symbol h
  | chr text => exact scansTo_char h
  | stream => exact h.elim

/-- The tokens of the pair notation are the written shape of the object: each pair is a dotted list
of one element, which may be a dot itself. -/
theorem derives_pairTokens (d : Datum) (h : d.Legible) : Derives d.pairTokens d := by
  induction d with
  | pair car cdr ihCar ihCdr =>
      obtain ⟨hcar, hcdr⟩ := h
      have hitems : ∀ item ∈ [(car.pairTokens, car)], Derives item.1 item.2 := by
        intro item hitem
        rw [List.mem_singleton.1 hitem]
        exact ihCar hcar
      have hpair := Derives.dotted "(" ")" (List.cons_ne_nil _ _) hitems
        (List.forall_mem_nil _) (ihCdr hcdr)
      rw [List.flatMap_singleton] at hpair
      exact hpair
  | sym name => exact .symbol name
  | chr text => exact .char text
  | stream => exact h.elim

/-- A legible object is read back from its pair notation, wherever dots stand in it. -/
theorem read_pairText {d : Datum} (h : d.Legible) : read d.pairText = .ok d := by
  have hscan : scan d.pairText = ⟨d.pairTokens, none⟩ := (scansTo_pairChars d h).scan_ofList
  have hreads : ReadState.start.Reads d.pairTokens (.done d) :=
    ReadState.takes_of_derives (derives_pairTokens d h) [] fun _ => id
  exact read_of_reads hscan hreads

/-- **What can be read.** There is a text that is read as the object exactly if no stream stands in
the object and its names could be the texts of tokens. -/
theorem exists_read_eq_ok_iff (d : Datum) : (∃ source, read source = .ok d) ↔ d.Legible := by
  constructor
  · rintro ⟨source, hread⟩
    exact legible_of_read hread
  · intro h
    exact ⟨d.pairText, read_pairText h⟩

example : (Datum.ofList [.sym "a", .sym ".", .sym "b"]).pairText = "(a . (. . (b . nil)))" := by
  decide

end BelLisp
