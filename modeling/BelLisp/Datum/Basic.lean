/-!
# Objects of Bel

Everything that Bel computes with is one of four kinds of object: a symbol, a pair, a character or
a stream. There is no separate empty list: the symbol `nil` is the empty list and the false value.

Two objects are the same when they have the same structure. The comparison `Datum.same` walks two
objects side by side, and `Datum.same_iff` says that it decides equality.
-/

set_option autoImplicit false

namespace BelLisp

/-- An object. A character carries its name, which may have several letters. A stream has no
parts yet. -/
inductive Datum where
  | sym (name : String)
  | pair (car cdr : Datum)
  | chr (text : String)
  | stream
deriving Inhabited

namespace Datum

/-- The empty list, which is also the false value. -/
def nil : Datum := .sym "nil"

/-- The conventional true value. -/
def t : Datum := .sym "t"

/-- Do two objects have the same structure? -/
def same : Datum → Datum → Bool
  | .sym a, .sym b => a == b
  | .pair a b, .pair c d => same a c && same b d
  | .chr a, .chr b => a == b
  | .stream, .stream => true
  | _, _ => false

theorem same_refl (d : Datum) : same d d = true := by
  induction d with
  | sym name => simp [same]
  | pair car cdr ihCar ihCdr => simp [same, ihCar, ihCdr]
  | chr text => simp [same]
  | stream => rfl

theorem eq_of_same {a b : Datum} (h : same a b = true) : a = b := by
  induction a generalizing b with
  | sym name => cases b <;> simp_all [same]
  | pair car cdr ihCar ihCdr =>
      cases b with
      | pair c d =>
          simp only [same, Bool.and_eq_true] at h
          rw [ihCar h.1, ihCdr h.2]
      | _ => simp [same] at h
  | chr text => cases b <;> simp_all [same]
  | stream => cases b <;> simp_all [same]

/-- The comparison decides equality. -/
theorem same_iff {a b : Datum} : same a b = true ↔ a = b :=
  ⟨eq_of_same, fun h => h ▸ same_refl a⟩

instance : BEq Datum := ⟨same⟩

instance : LawfulBEq Datum where
  eq_of_beq := eq_of_same
  rfl := same_refl _

instance : DecidableEq Datum := fun a b =>
  decidable_of_iff (same a b = true) same_iff

/-- Is the object the empty list? -/
def isNil (d : Datum) : Bool := d == nil

/-- Does the object count as true? -/
def isTrue (d : Datum) : Bool := d != nil

@[simp] theorem isNil_iff {d : Datum} : d.isNil = true ↔ d = nil := by
  simp [isNil]

/-- The truth value of a test. -/
def ofBool (flag : Bool) : Datum := if flag then t else nil

/-- Is the object a symbol? There is one symbol to a name, so a copy of a symbol is the symbol. -/
def isSymbol : Datum → Bool
  | .sym _ => true
  | _ => false

/-- The name of the kind of an object. -/
def kindName : Datum → String
  | .sym _ => "symbol"
  | .pair _ _ => "pair"
  | .chr _ => "char"
  | .stream => "stream"

end Datum

end BelLisp
