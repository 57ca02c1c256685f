import BelLisp.Proofs.Eval.Coupling

/-!
# Literals and the bodies in them

The literal of a function is read back to the parameters and the body that it was written from, and
nothing but such a literal can be read (`Closure.ofLiteral_eq_ok_iff`). With the literal of a macro
it is the same (`Closure.ofExpanderLiteral_eq_ok_iff`). So of all that stands in a global, only the
body of a function literal is ever evaluated. An object keeps a symbol out of evaluation if that
symbol does not stand in the body it has as a function literal (`Datum.BodyAvoids`), whether it
stands elsewhere in the object or not.
-/

set_option autoImplicit false

namespace BelLisp

/-! ## Reading literals -/

/-- Two computations in sequence succeed if the first does, and the second does on its value. -/
theorem bind_eq_ok_iff {ε α β : Type} {first : Except ε α} {next : α → Except ε β} {b : β} :
    (first >>= next) = .ok b ↔ ∃ a, first = .ok a ∧ next a = .ok b := by
  cases first with
  | ok a => simp [Bind.bind, Except.bind]
  | error fault => simp [Bind.bind, Except.bind]

namespace Closure

theorem expectSymbols_eq_ok_iff {expected : List String} {object rest : Datum} :
    expectSymbols expected object = .ok rest ↔
      object = .ofListTail (expected.map .sym) rest := by
  fun_induction expectSymbols expected object with
  | case1 object => simp [Datum.ofListTail]
  | case2 name more object ih => simpa [Datum.ofListTail] using ih
  | case3 name more found object hne => simp [Datum.ofListTail, hne]
  | case4 name more found object hsym =>
      simp only [reduceCtorEq, false_iff]
      intro heq
      cases heq
      exact hsym _ rfl
  | case5 name more object hsym hpair =>
      simp only [reduceCtorEq, false_iff]
      rintro rfl
      exact hpair _ _ rfl

theorem expectItem_eq_ok_iff {missing : LiteralDefect} {object item rest : Datum} :
    expectItem missing object = .ok (item, rest) ↔ object = .pair item rest := by
  cases object with
  | pair car cdr => simp [expectItem]
  | sym _ | chr _ | stream => simp [expectItem]

theorem expectEnd_eq_ok_iff {surplus : LiteralDefect} {object : Datum} :
    expectEnd surplus object = .ok () ↔ object = .nil := by
  cases object with
  | pair car cdr => simp [expectEnd, Datum.nil]
  | sym _ | chr _ | stream => simp [expectEnd]

/-- An object is decoded to parameters and a body exactly if it is their literal. -/
theorem decode_eq_ok_iff {object params body : Datum} :
    decode object = .ok (params, body) ↔ object = literal params body := by
  constructor
  · intro h
    rw [decode] at h
    -- take the object apart from the front, as far as it has been accepted
    obtain ⟨rest, hsymbols, h⟩ := bind_eq_ok_iff.1 h
    obtain ⟨⟨first, rest'⟩, hfirst, h⟩ := bind_eq_ok_iff.1 h
    obtain ⟨⟨second, rest''⟩, hsecond, h⟩ := bind_eq_ok_iff.1 h
    obtain ⟨_, hend, h⟩ := bind_eq_ok_iff.1 h
    cases h
    rw [expectSymbols_eq_ok_iff.1 hsymbols, expectItem_eq_ok_iff.1 hfirst,
      expectItem_eq_ok_iff.1 hsecond, expectEnd_eq_ok_iff.1 hend]
    rfl
  · rintro rfl
    rfl

/-- A literal stands for the function it was written from, and nothing else stands for one. -/
theorem ofLiteral_eq_ok_iff {name : String} {object : Datum} {f : Closure} :
    ofLiteral name object = .ok f ↔ f.name = name ∧ object = literal f.params f.body := by
  rw [ofLiteral, ← decode_eq_ok_iff]
  rcases f with ⟨name', params, body⟩
  cases decode object with
  | ok parts => simp [Prod.ext_iff, eq_comm]
  | error defect => simp

theorem literal_inj {params params' body body' : Datum} :
    literal params body = literal params' body' ↔ params = params' ∧ body = body' := by
  simp [literal, Datum.ofList, Datum.ofListTail]

/-- The literal of a macro is decoded to what it wraps, and nothing else is decoded. -/
theorem decodeExpander_eq_ok_iff {object closure : Datum} :
    decodeExpander object = .ok closure ↔ object = expanderLiteral closure := by
  constructor
  · intro h
    rw [decodeExpander] at h
    obtain ⟨rest, hsymbols, h⟩ := bind_eq_ok_iff.1 h
    obtain ⟨⟨first, rest'⟩, hfirst, h⟩ := bind_eq_ok_iff.1 h
    obtain ⟨_, hend, h⟩ := bind_eq_ok_iff.1 h
    cases h
    rw [expectSymbols_eq_ok_iff.1 hsymbols, expectItem_eq_ok_iff.1 hfirst,
      expectEnd_eq_ok_iff.1 hend]
    rfl
  · rintro rfl
    rfl

/-- The literal of a macro stands for the function in it. A wrapped object that is not the literal
of a function stands for none. -/
theorem ofExpanderLiteral_eq_ok_iff {name : String} {object : Datum} {f : Closure} :
    ofExpanderLiteral name object = .ok f ↔
      f.name = name ∧ object = expanderLiteral (literal f.params f.body) := by
  rw [← decodeExpander_eq_ok_iff, ofExpanderLiteral]
  cases decodeExpander object with
  | ok closure =>
      show ofLiteral name closure = .ok f ↔ _
      rw [ofLiteral_eq_ok_iff, Except.ok.injEq]
  | error defect => simp

/-- What is refused as a function is a malformed literal, however it is malformed. -/
theorem kind_of_ofLiteral {name : String} {object : Datum} {fault : Fault}
    (h : ofLiteral name object = .error fault) : fault.kind = .malformedFunction := by
  rw [ofLiteral] at h
  split at h
  · cases h
  · cases h
    rfl

/-- So is what is refused as a macro, in the wrapping or in what it wraps. -/
theorem kind_of_ofExpanderLiteral {name : String} {object : Datum} {fault : Fault}
    (h : ofExpanderLiteral name object = .error fault) : fault.kind = .malformedFunction := by
  rw [ofExpanderLiteral] at h
  split at h
  · exact kind_of_ofLiteral h
  · cases h
    rfl

/-- A reading that accepts what has been written, and calls all that it refuses malformed, refuses
exactly what has not been written. -/
theorem refused_iff {reading : Except Fault Closure} {name : String} {object : Datum}
    {write : Datum → Datum → Datum}
    (hok : ∀ f : Closure, reading = .ok f ↔ f.name = name ∧ object = write f.params f.body)
    (hkind : ∀ fault, reading = .error fault → fault.kind = .malformedFunction) :
    (∃ fault, reading = .error fault ∧ fault.kind = .malformedFunction) ↔
      ¬ ∃ params body, object = write params body := by
  constructor
  · rintro ⟨fault, hrefused, -⟩ ⟨params, body, hobject⟩
    have hread : reading = .ok ⟨name, params, body⟩ := (hok _).2 ⟨rfl, hobject⟩
    rw [hrefused] at hread
    cases hread
  · intro hother
    cases hread : reading with
    | ok f => exact absurd ⟨f.params, f.body, ((hok f).1 hread).2⟩ hother
    | error fault => exact ⟨fault, rfl, hkind fault hread⟩

/-- **Only literals can be read.** An object stands for a function under a name exactly if it is the
literal of the function's parameters and body, and for a macro exactly if it is such a literal in
the wrapping of a macro. Every other object, and no literal, is refused as malformed. -/
theorem only_literals_decode (name : String) (object : Datum) :
    (∀ f, ofLiteral name object = .ok f ↔
      f.name = name ∧ object = literal f.params f.body) ∧
    (∀ f, ofExpanderLiteral name object = .ok f ↔
      f.name = name ∧ object = expanderLiteral (literal f.params f.body)) ∧
    ((∃ fault, ofLiteral name object = .error fault ∧ fault.kind = .malformedFunction) ↔
      ¬ ∃ params body, object = literal params body) ∧
    ((∃ fault, ofExpanderLiteral name object = .error fault ∧ fault.kind = .malformedFunction) ↔
      ¬ ∃ params body, object = expanderLiteral (literal params body)) := by
  refine ⟨fun _ => ofLiteral_eq_ok_iff, fun _ => ofExpanderLiteral_eq_ok_iff, ?_, ?_⟩
  · exact refused_iff (fun _ => ofLiteral_eq_ok_iff) fun _ => kind_of_ofLiteral
  · exact refused_iff (fun _ => ofExpanderLiteral_eq_ok_iff) fun _ => kind_of_ofExpanderLiteral

end Closure

/-! ## Bodies -/

/-- The symbol does not stand in the body that the object has if it is the literal of a function. -/
def Datum.BodyAvoids (name : String) (d : Datum) : Prop :=
  ∀ params body, d = Closure.literal params body → ¬ body.Mentions name

namespace Datum

variable {name : String}

/-- What does not mention a symbol at all does not mention it in a body. -/
theorem bodyAvoids_of_not_mentions {d : Datum} (h : ¬ d.Mentions name) : d.BodyAvoids name := by
  rintro params body rfl hbody
  apply h
  simp [Closure.literal, ofList, ofListTail, Mentions, hbody]

theorem bodyAvoids_nil : nil.BodyAvoids name := by
  intro params body heq
  simp [Closure.literal, ofList, ofListTail, nil] at heq

/-- A function literal puts its own words around the body and nothing into it. -/
theorem bodyAvoids_literal {params body : Datum} (h : ¬ body.Mentions name) :
    (Closure.literal params body).BodyAvoids name := by
  intro params' body' heq
  obtain ⟨-, rfl⟩ := Closure.literal_inj.1 heq
  exact h

/-- The literal of a macro is not the literal of a function. -/
theorem bodyAvoids_expanderLiteral (closure : Datum) :
    (Closure.expanderLiteral closure).BodyAvoids name := by
  intro params body heq
  simp [Closure.literal, Closure.expanderLiteral, ofList, ofListTail] at heq

theorem BodyAvoids.of_ofLiteral {d : Datum} {key : String} {f : Closure} (h : d.BodyAvoids name)
    (hf : Closure.ofLiteral key d = .ok f) : ¬ f.body.Mentions name :=
  h f.params f.body (Closure.ofLiteral_eq_ok_iff.1 hf).2

end Datum

end BelLisp
