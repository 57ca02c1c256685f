import BelLisp.Proofs.Eval.Runs

/-!
# Objects along their spine

Every object is a chain of pairs, possibly of none, that ends in an object which is not a pair. The
elements along the chain are the `spine` of the object and what it ends in is its `terminator`. The
two determine the object (`Datum.ofListTail_spine`), and a list is an object with the terminator
`nil` (`Datum.eq_ofList_iff`). Taking an object apart and measuring it are answered by the spine, if
the terminator lets them end there (`Datum.toList_eq`, `Datum.length_eq`).
-/

set_option autoImplicit false

namespace BelLisp.Datum

/-- The elements along the chain of pairs that an object starts with. -/
def spine : Datum → List Datum
  | .pair car cdr => car :: spine cdr
  | _ => []

/-- What the chain of pairs ends in; it is not a pair. -/
def terminator : Datum → Datum
  | .pair _ cdr => terminator cdr
  | rest => rest

theorem terminator_ne_pair (d car cdr : Datum) : d.terminator ≠ .pair car cdr := by
  induction d with
  | pair _ _ _ ih => exact ih
  | sym _ | chr _ | stream => simp [terminator]

theorem spine_of_ne_pair {d : Datum} (h : ∀ car cdr, d ≠ .pair car cdr) :
    d.spine = [] ∧ d.terminator = d := by
  cases d with
  | pair car cdr => exact absurd rfl (h car cdr)
  | sym _ | chr _ | stream => exact ⟨rfl, rfl⟩

/-- An object is the chain of its spine, ended by its terminator. -/
theorem ofListTail_spine (d : Datum) : ofListTail d.spine d.terminator = d := by
  induction d with
  | pair car cdr _ ih =>
      show Datum.pair car (ofListTail cdr.spine cdr.terminator) = _
      rw [ih]
  | sym _ | chr _ | stream => rfl

/-! ## Chains that are built -/

theorem ofListTail_append (items more : List Datum) (tail : Datum) :
    ofListTail (items ++ more) tail = ofListTail items (ofListTail more tail) :=
  List.foldr_append

theorem spine_ofListTail (items : List Datum) (tail : Datum) :
    (ofListTail items tail).spine = items ++ tail.spine := by
  induction items with
  | nil => rfl
  | cons item items ih =>
      show item :: (ofListTail items tail).spine = _
      rw [ih, List.cons_append]

theorem terminator_ofListTail (items : List Datum) (tail : Datum) :
    (ofListTail items tail).terminator = tail.terminator := by
  induction items with
  | nil => rfl
  | cons item items ih => exact ih

@[simp] theorem spine_ofList (items : List Datum) : (ofList items).spine = items := by
  rw [ofList, spine_ofListTail]
  exact List.append_nil items

@[simp] theorem terminator_ofList (items : List Datum) : (ofList items).terminator = nil :=
  terminator_ofListTail items nil

/-- An object that ends in `nil` is the list of its spine. -/
theorem eq_ofList_iff {d : Datum} {items : List Datum} :
    d = ofList items ↔ d.spine = items ∧ d.terminator = nil := by
  constructor
  · rintro rfl
    exact ⟨spine_ofList items, terminator_ofList items⟩
  · rintro ⟨rfl, hend⟩
    rw [ofList, ← hend, ofListTail_spine]

/-! ## Lists taken apart -/

theorem toList_eq (d : Datum) : d.toList = endOfList d.terminator d.spine := by
  induction d with
  | pair car cdr _ ih =>
      rw [toList, ih, terminator, spine, endOfList, endOfList]
      cases cdr.terminator.isNil <;> rfl
  | sym _ | chr _ | stream => rfl

theorem length_eq (d : Datum) : d.length = endOfList d.terminator d.spine.length := by
  induction d with
  | pair car cdr _ ih =>
      rw [length, ih, terminator, spine, endOfList, endOfList]
      cases cdr.terminator.isNil <;> rfl
  | sym _ | chr _ | stream => rfl

theorem length_ofList (items : List Datum) : (ofList items).length = .ok items.length := by
  rw [length_eq, spine_ofList, terminator_ofList]
  rfl

end BelLisp.Datum
