import BelLisp.Proofs.Reader.Printed
import BelLisp.Proofs.Reader.Steps

/-!
# Reading back what was printed

The printer writes every chain of pairs in list notation, and in a list the reader takes a dot
behind the first element for the mark before the last tail. So an object with a dot in such a place
is read back as another object or not at all. `Datum.reread` computes what is read back from the
object alone, and `read_text_eq_ok_iff_reread` says that the reader does this on the printed text.

A list that loses a dot gets smaller, so an object is read back as itself exactly if there is no
such dot in it and its names can be read (`read_text_eq_ok_iff`).
-/

set_option autoImplicit false

namespace BelLisp

namespace Datum

/-- A dot stands nowhere in a list but at its head: it is never the first part of a pair that is
the second part of a pair. -/
def DotsLead : Datum → Prop
  | .pair car cdr => DotsLead car ∧ DotsLead cdr ∧ ∀ rest, cdr ≠ .pair (.sym ".") rest
  | _ => True

mutual

/-- The object that is read from the readable form, if it can be read. -/
def reread : Datum → Option Datum
  | .pair car cdr => (reread car).bind fun first => (rereadTail cdr).map (.pair first)
  | atom => some atom

/-- The same for the rest of a list behind an element. A dot makes what follows the last tail. -/
def rereadTail : Datum → Option Datum
  | .pair car cdr =>
    if car = .sym "." then rereadLast cdr
    else (reread car).bind fun first => (rereadTail cdr).map (.pair first)
  | atom => some atom

/-- The same for the rest of a list behind a dot, which must have one element. -/
def rereadLast : Datum → Option Datum
  | .pair car cdr => if cdr = nil then reread car else none
  | _ => none

end

/-! ## Rereading an object -/

/-- Without a dot behind the head of a list, an object is reread as itself. -/
theorem reread_of_dotsLead (d : Datum) (h : d.DotsLead) :
    d.reread = some d ∧ ((∀ rest, d ≠ .pair (.sym ".") rest) → d.rereadTail = some d) := by
  induction d with
  | sym _ | chr _ | stream => exact ⟨rfl, fun _ => rfl⟩
  | pair car cdr ihCar ihCdr =>
      obtain ⟨hcar, hcdr, hdot⟩ := h
      have hfirst : car.reread = some car := (ihCar hcar).1
      have htail : cdr.rereadTail = some cdr := (ihCdr hcdr).2 hdot
      refine ⟨by simp [reread, hfirst, htail], fun hhead => ?_⟩
      have hne : car ≠ .sym "." := fun hcar => hhead cdr (by rw [hcar])
      simp [rereadTail, hne, hfirst, htail]

theorem sizeOf_le_of_eq_or_lt {d d' : Datum} {p : Prop}
    (h : (d' = d ∧ p) ∨ sizeOf d' < sizeOf d) : sizeOf d' ≤ sizeOf d := by
  rcases h with ⟨rfl, -⟩ | hless
  · exact Nat.le_refl _
  · exact Nat.le_of_lt hless

/-- What is reread is the object itself, which then has no dot behind the head of a list, or is
smaller. Behind a dot it is smaller in any case. -/
theorem reread_eq_or_smaller (d : Datum) :
    (∀ d', d.reread = some d' → (d' = d ∧ d.DotsLead) ∨ sizeOf d' < sizeOf d) ∧
    (∀ d', d.rereadTail = some d' →
      (d' = d ∧ d.DotsLead ∧ ∀ rest, d ≠ .pair (.sym ".") rest) ∨ sizeOf d' < sizeOf d) ∧
    (∀ d', d.rereadLast = some d' → sizeOf d' < sizeOf d) := by
  induction d with
  | sym _ | chr _ | stream =>
      refine ⟨?_, ?_, by simp [rereadLast]⟩
      · rintro _ ⟨⟩
        exact .inl ⟨rfl, trivial⟩
      · rintro _ ⟨⟩
        exact .inl ⟨rfl, trivial, by simp⟩
  | pair car cdr ihCar ihCdr =>
      obtain ⟨ihFirst, -, -⟩ := ihCar
      obtain ⟨-, ihTail, ihLast⟩ := ihCdr
      have hlist : ∀ d', (pair car cdr).reread = some d' →
          (d' = pair car cdr ∧ (pair car cdr).DotsLead) ∨ sizeOf d' < sizeOf (pair car cdr) := by
        intro d' h
        obtain ⟨first, hfirst, h⟩ := Option.bind_eq_some_iff.1 h
        obtain ⟨tail, htail, rfl⟩ := Option.map_eq_some_iff.1 h
        have hle : sizeOf first ≤ sizeOf car := sizeOf_le_of_eq_or_lt (ihFirst first hfirst)
        have hle' : sizeOf tail ≤ sizeOf cdr := sizeOf_le_of_eq_or_lt (ihTail tail htail)
        rw [pair.sizeOf_spec, pair.sizeOf_spec]
        rcases ihFirst first hfirst with ⟨rfl, hcar⟩ | hless
        · rcases ihTail tail htail with ⟨rfl, hcdr, hdot⟩ | hless
          · exact .inl ⟨rfl, hcar, hcdr, hdot⟩
          · right
            omega
        · right
          omega
      refine ⟨hlist, ?_, ?_⟩
      · intro d' h
        rw [rereadTail] at h
        split at h
        · -- the dot and its pair are lost, whatever follows
          right
          have hless : sizeOf d' < sizeOf cdr := ihLast d' h
          rw [pair.sizeOf_spec]
          omega
        · rename_i hcar
          rcases hlist d' h with ⟨rfl, hdots⟩ | hless
          · refine .inl ⟨rfl, hdots, ?_⟩
            rintro rest ⟨⟩
            exact hcar rfl
          · exact .inr hless
      · intro d' h
        rw [rereadLast] at h
        split at h
        · have hle : sizeOf d' ≤ sizeOf car := sizeOf_le_of_eq_or_lt (ihFirst d' h)
          rw [pair.sizeOf_spec]
          omega
        · cases h

/-- An object is reread as itself exactly if it has no dot behind the head of a list. -/
theorem reread_eq_some_self_iff {d : Datum} : d.reread = some d ↔ d.DotsLead := by
  constructor
  · intro h
    rcases (reread_eq_or_smaller d).1 d h with ⟨-, hdots⟩ | hless
    · exact hdots
    · exact absurd hless (Nat.lt_irrefl _)
  · intro h
    exact (reread_of_dotsLead d h).1

end Datum

/-! ## Taking the tokens of an object -/

namespace ReadState

/-- The innermost thing that is open is a list with an element already read. -/
def BehindElement : List Frame → Prop
  | .items (_ :: _) :: _ => True
  | _ => False

variable {frames outer : List Frame} {elements : List Datum} {e : Datum}

theorem take_opening : take .opening (.open frames) = .ok (.open (.items [] :: frames)) := rfl

theorem take_char (text : String) :
    take (.ofChar text) (.open frames) = .ok (deliver (.chr text) frames) := by
  simp [take, Token.ofChar]

theorem take_dot :
    take .dot (.open (.items (e :: elements) :: outer)) =
      .ok (.open (.tail (e :: elements) :: outer)) := rfl

/-- A symbol is delivered, unless it is the dot behind an element of a list. -/
theorem take_symbol {name : String} (h : name = "." → ¬ BehindElement frames) :
    take (.ofSymbol name) (.open frames) = .ok (deliver (.sym name) frames) := by
  simp only [take, Token.ofSymbol]
  split
  · have hname : name ≠ "." := fun hdot => h hdot trivial
    exact if_neg hname
  · rfl

theorem take_closing_items :
    take .closing (.open (.items elements :: outer)) =
      .ok (deliver (.ofList elements.reverse) outer) := rfl

theorem take_closing_tail {tail : Datum} :
    take .closing (.closing elements tail outer) =
      .ok (deliver (.ofListTail elements.reverse tail) outer) := rfl

end ReadState

namespace Datum

open ReadState

/-- Where a form comes next, the tokens of the object lead to the delivery of what is reread. -/
def TakenAsForm (d : Datum) (frames : List Frame) : Prop :=
  (ReadState.open frames).Comes d.tokens (d.reread.map fun form => deliver form frames)

/-- Behind an element of a list, the tokens of the rest complete the list. -/
def TakenAsRest (d : Datum) : Prop :=
  ∀ (e : Datum) (elements : List Datum) (outer : List Frame),
    (ReadState.open (.items (e :: elements) :: outer)).Comes d.tailTokens
      (d.rereadTail.map fun rest => deliver (ofListTail (e :: elements).reverse rest) outer)

/-- Behind the dot of a list, the tokens of the rest complete the list. -/
def TakenAsLast (d : Datum) : Prop :=
  ∀ (elements : List Datum) (outer : List Frame),
    (ReadState.open (.tail elements :: outer)).Comes d.tailTokens
      (d.rereadLast.map fun tail => deliver (ofListTail elements.reverse tail) outer)

theorem ofListTail_reverse_cons (e : Datum) (elements : List Datum) (tail : Datum) :
    ofListTail (e :: elements).reverse tail = ofListTail elements.reverse (.pair e tail) := by
  simp [ofListTail, List.foldr_append]

theorem comes_elements {car cdr : Datum} {elements : List Datum} {outer : List Frame}
    (hcar : car.TakenAsForm (.items elements :: outer)) (hcdr : cdr.TakenAsRest) :
    (ReadState.open (.items elements :: outer)).Comes (car.tokens ++ cdr.tailTokens)
      ((pair car cdr).reread.map fun rest => deliver (ofListTail elements.reverse rest) outer) := by
  have hboth := Comes.bind hcar (fun first _ => hcdr first elements outer)
  simp only [ofListTail_reverse_cons] at hboth
  simpa only [reread, Option.map_bind, Option.map_map, Function.comp_def] using hboth

theorem tailTokens_head {d : Datum} (h : d.Legible) (hne : d ≠ nil) :
    ∃ token tokens, d.tailTokens = token :: tokens ∧ token.kind ≠ .closeBracket := by
  cases d with
  | pair car cdr =>
      cases car with
      | pair => exact ⟨_, _, rfl, by simp⟩
      | sym => exact ⟨_, _, rfl, by simp⟩
      | chr => exact ⟨_, _, rfl, by simp⟩
      | stream => exact h.1.elim
  | sym name =>
      have hname : name ≠ "nil" := fun hname => hne (by rw [hname, nil])
      exact ⟨.dot, [.ofSymbol name, .closing], by rw [tailTokens, if_neg hname], by simp⟩
  | chr text => exact ⟨_, _, rfl, by simp⟩
  | stream => exact h.elim

theorem rejects_closing {d tail : Datum} {elements : List Datum} {outer : List Frame}
    (h : d.Legible) (hne : d ≠ nil) :
    (ReadState.closing elements tail outer).Rejects d.tailTokens := by
  obtain ⟨token, tokens, htokens, hkind⟩ := tailTokens_head h hne
  rw [htokens]
  exact .here tokens (if_neg hkind)

/-- An atom behind a dot is the last tail of the list. -/
theorem comes_dotted {atom : Datum} {token : Token} {e : Datum} {elements : List Datum}
    {outer : List Frame} (h : atom.TakenAsForm (.tail (e :: elements) :: outer))
    (htokens : atom.tokens = [token]) (hreread : atom.reread = some atom) :
    (ReadState.open (.items (e :: elements) :: outer)).Comes [.dot, token, .closing]
      (some (deliver (ofListTail (e :: elements).reverse atom) outer)) := by
  rw [TakenAsForm, htokens, hreread] at h
  refine Reads.step id take_dot (Reads.trans h ?_)
  exact Reads.step id take_closing_tail (.refl _)

/-- Behind a dot, a second dot or a bracket comes too early. -/
theorem rejects_second_dot {token : Token} {elements : List Datum} {outer : List Frame}
    (h : token.kind ≠ .closeBracket) :
    (ReadState.open (.tail elements :: outer)).Rejects [.dot, token, .closing] :=
  .later id rfl (.here _ (if_neg h))

/-- The reader takes the tokens of the object as `reread` and its companions say. -/
structure Taken (d : Datum) : Prop where
  form : ∀ frames, (d = sym "." → ¬ BehindElement frames) → d.TakenAsForm frames
  rest : d.TakenAsRest
  last : d.TakenAsLast

theorem taken_symbol (name : String) : (sym name).Taken := by
  have hform : ∀ frames, (name = "." → ¬ BehindElement frames) → (sym name).TakenAsForm frames :=
    fun frames hdot => Reads.step id (take_symbol hdot) (.refl _)
  refine ⟨fun frames hdot => hform frames fun hname => hdot (by rw [hname]), ?_, ?_⟩
  · intro e elements outer
    by_cases hnil : name = "nil"
    · rw [tailTokens, if_pos hnil]
      subst hnil
      exact Reads.step id take_closing_items (.refl _)
    · rw [tailTokens, if_neg hnil]
      exact comes_dotted (hform _ fun _ => id) rfl rfl
  · intro elements outer
    by_cases hnil : name = "nil"
    · rw [tailTokens, if_pos hnil]
      exact .here [] rfl
    · rw [tailTokens, if_neg hnil]
      exact rejects_second_dot (by simp)

theorem taken_char (text : String) : (chr text).Taken := by
  have hform : ∀ frames, (chr text).TakenAsForm frames :=
    fun frames => Reads.step id (take_char text) (.refl _)
  refine ⟨fun frames _ => hform frames, ?_, ?_⟩
  · intro e elements outer
    exact comes_dotted (hform _) rfl rfl
  · intro elements outer
    exact rejects_second_dot (by simp)

theorem taken_pair {car cdr : Datum} (hcar : car.Taken) (hcdr : cdr.Taken)
    (hlegible : cdr.Legible) : (pair car cdr).Taken := by
  refine ⟨?_, ?_, ?_⟩
  · intro frames _
    -- behind the opening bracket even a dot is a symbol
    have hfirst : car.TakenAsForm (.items [] :: frames) := hcar.form _ fun _ => id
    exact Comes.step id take_opening (comes_elements hfirst hcdr.rest)
  · intro e elements outer
    by_cases hdot : car = sym "."
    · -- the element is taken for the mark before the last tail
      subst hdot
      rw [rereadTail, if_pos rfl]
      exact Comes.step id take_dot (hcdr.last (e :: elements) outer)
    · have hitem : car.TakenAsForm (.items (e :: elements) :: outer) :=
        hcar.form _ fun h => absurd h hdot
      rw [rereadTail, if_neg hdot]
      exact comes_elements hitem hcdr.rest
  · intro elements outer
    have htail : car.TakenAsForm (.tail elements :: outer) := hcar.form _ fun _ => id
    rw [rereadLast, tailTokens]
    by_cases hnil : cdr = nil
    · subst hnil
      rw [if_pos rfl, Option.map_eq_bind]
      refine htail.bind fun tail _ => ?_
      exact Reads.step id take_closing_tail (.refl _)
    · -- more than one element behind the dot: refused, even if the first can be read
      rw [if_neg hnil, Option.map_none, ← Option.bind_fun_none car.reread]
      exact htail.bind fun tail _ => rejects_closing hlegible hnil

theorem taken_of_legible (d : Datum) (h : d.Legible) : d.Taken := by
  induction d with
  | sym name => exact taken_symbol name
  | chr text => exact taken_char text
  | stream => exact h.elim
  | pair car cdr ihCar ihCdr => exact taken_pair (ihCar h.1) (ihCdr h.2) h.2

end Datum

/-! ## Texts -/

/-- What is read from the readable form of a legible object is what is reread. -/
theorem read_text_eq_ok_iff_reread {d d' : Datum} (h : d.Legible) :
    read d.text = .ok d' ↔ d.reread = some d' := by
  have hcomes : ReadState.start.Comes d.tokens (d.reread.map .done) :=
    (Datum.taken_of_legible d h).form [] fun _ => id
  cases hreread : d.reread with
  | none =>
      rw [hreread] at hcomes
      have hfault : (readAll d.text).fault ≠ none := by
        rw [readAll, scan_text h]
        exact fault_of_rejects hcomes
      obtain ⟨fault, hfault⟩ := Option.ne_none_iff_exists'.1 hfault
      simp [read, hfault]
  | some form =>
      rw [hreread] at hcomes
      rw [read_of_reads (scan_text h) hcomes]
      simp

/-- **Exact read-back law.** An object is read back from its readable form exactly if no stream
stands in it, its names could be the texts of tokens, and no dot stands in a list behind its
head. -/
theorem read_text_eq_ok_iff (d : Datum) : read d.text = .ok d ↔ d.Legible ∧ d.DotsLead := by
  constructor
  · intro h
    have hlegible : d.Legible := legible_of_read h
    exact ⟨hlegible, Datum.reread_eq_some_self_iff.1 ((read_text_eq_ok_iff_reread hlegible).1 h)⟩
  · rintro ⟨hlegible, hdots⟩
    exact (read_text_eq_ok_iff_reread hlegible).2 (Datum.reread_eq_some_self_iff.2 hdots)

/-- What has been read can be printed and read again exactly if no dot stands in a list behind its
head. -/
theorem read_text_of_read_iff {source : String} {d : Datum} (h : read source = .ok d) :
    read d.text = .ok d ↔ d.DotsLead := by
  rw [read_text_eq_ok_iff_reread (legible_of_read h), Datum.reread_eq_some_self_iff]

theorem read_text_of_read_iff_quoted_dot :
    read "'." = .ok (.ofList [.sym "quote", .sym "."]) ∧
      ¬ (read (Datum.ofList [.sym "quote", .sym "."]).text =
        .ok (.ofList [.sym "quote", .sym "."])) := by
  have hread : read "'." = .ok (.ofList [.sym "quote", .sym "."]) := by cbv
  refine ⟨hread, ?_⟩
  rw [read_text_of_read_iff hread]
  rintro ⟨-, -, hdot⟩
  exact hdot .nil rfl

/-- Not everything that has been read can be printed and read again: a dot that is an element of a
list comes back as the mark before a tail. -/
theorem not_forall_read_text_of_read :
    ¬ ∀ (source : String) (d : Datum), read source = .ok d → read d.text = .ok d := by
  intro h
  have hread : read "(a . (. b))" = .ok (.ofList [.sym "a", .sym ".", .sym "b"]) := by cbv
  have htext : (Datum.ofList [.sym "a", .sym ".", .sym "b"]).text = "(a . b)" := by decide
  have hback : read "(a . b)" = .ok (.pair (.sym "a") (.sym "b")) := by cbv
  rw [← htext, h _ _ hread] at hback
  cases hback

end BelLisp
