import BelLisp.Proofs.Lists

/-!
# Lists as sequences

A list is built from a sequence of objects, and it can be taken apart, measured and recognised, each
by a walk of its own; a cursor walks it one element at a time. All of them are answered by the spine
and the terminator of the object, and so they agree: exactly the objects that end in `nil` are lists
(`Datum.isList_iff`), and taking apart undoes building in both directions.

A cursor on a chain hands out the elements of the chain and is then a cursor on its tail
(`Cursor.steps_ofListTail`), whatever the tail is. The main statement is `lists_are_sequences`.
-/

set_option autoImplicit false

namespace BelLisp

namespace Datum

/-- An object is a list exactly if it ends in `nil`. -/
theorem isList_iff {d : Datum} : d.isList = true ↔ d.terminator = nil := by
  induction d with
  | pair car cdr _ ih => exact ih
  | sym _ | chr _ | stream => exact isNil_iff

theorem isList_ofList (items : List Datum) : (ofList items).isList = true :=
  isList_iff.2 (terminator_ofList items)

theorem toList_of_isList {d : Datum} (h : d.isList = true) : d.toList = .ok d.spine := by
  rw [toList_eq]
  exact endOfList_eq_ok_iff.2 ⟨isList_iff.1 h, rfl⟩

/-- What is no list is refused with what it ends in, both when it is taken apart and when it is
measured. -/
theorem refused_of_not_isList {d : Datum} (h : d.isList = false) :
    d.toList = .error (.malformedList d.terminator) ∧
      d.length = .error (.malformedList d.terminator) := by
  have hend : d.terminator ≠ nil := by
    intro hnil
    rw [isList_iff.2 hnil] at h
    cases h
  rw [toList_eq, length_eq]
  exact ⟨endOfList_eq_error_iff.2 ⟨hend, rfl⟩, endOfList_eq_error_iff.2 ⟨hend, rfl⟩⟩

/-- To take an object apart is to walk it with a cursor. -/
theorem toList_eq_walk (d : Datum) :
    d.toList = match Cursor.walk d with
      | (items, none, _) => .ok items
      | (_, some fault, _) => .error fault := by
  induction d with
  | pair car cdr _ ih =>
      -- the element in front is kept if the rest can be taken apart, and lost with it if not
      rcases hwalk : Cursor.walk cdr with ⟨items, fault, place⟩
      rw [hwalk] at ih
      simp only [toList, Cursor.walk, hwalk, ih]
      cases fault <;> rfl
  | sym _ | chr _ | stream =>
      simp only [toList, Cursor.walk, endOfList]
      split <;> rfl

end Datum

namespace Cursor

open Datum (ofListTail)

/-- The results of so many steps in order, and the place after them. -/
def steps (cursor : Cursor) : Nat → List (Except Fault (Option Datum)) × Cursor
  | 0 => ([], cursor)
  | n + 1 =>
    let (result, next) := cursor.step
    let (results, place) := next.steps n
    (result :: results, place)

/-- The steps along a chain hand out its elements and go on from its tail. -/
theorem steps_ofListTail (items : List Datum) (tail : Datum) (n : Nat) :
    steps ⟨ofListTail items tail⟩ (items.length + n) =
      (items.map (fun item => .ok (some item)) ++ (steps ⟨tail⟩ n).1, (steps ⟨tail⟩ n).2) := by
  induction items with
  | nil =>
      rw [List.length_nil, Nat.zero_add]
      rfl
  | cons item items ih =>
      -- the first step takes the first pair of the chain off
      have hstep : step ⟨ofListTail (item :: items) tail⟩ =
          (.ok (some item), ⟨ofListTail items tail⟩) := rfl
      rw [List.length_cons, Nat.add_right_comm, steps, hstep]
      simp only [ih]
      rfl

/-- A walk along a chain collects its elements and goes on from its tail. -/
theorem walk_ofListTail (items : List Datum) (tail : Datum) :
    walk (ofListTail items tail) = (items ++ (walk tail).1, (walk tail).2) := by
  induction items with
  | nil => rfl
  | cons item items ih =>
      have hwalk : walk (ofListTail (item :: items) tail) =
          (item :: (walk (ofListTail items tail)).1, (walk (ofListTail items tail)).2) := rfl
      rw [hwalk, ih]
      rfl

end Cursor

open Datum (ofList ofListTail)

/-- **Lists and sequences correspond.** The list of a sequence is a list, and taking it apart and
measuring it give the sequence and its length. An object is a list exactly if it can be taken apart,
and exactly if it can be measured; it is then the list of its elements, of which there are as many as
were measured. What is no list is refused by both with what it ends in. To take an object apart is to
walk it with a cursor. A cursor on a chain, stepped or walked to the end, hands out the elements of
the chain in order and is like a cursor on its tail from there on. -/
theorem lists_are_sequences :
    (∀ items : List Datum, (ofList items).toList = .ok items ∧ (ofList items).isList = true ∧
      (ofList items).length = .ok items.length) ∧
    (∀ d : Datum,
      (d.isList = true ↔ ∃ items, d.toList = .ok items) ∧
      (d.isList = true ↔ ∃ n, d.length = .ok n) ∧
      (∀ items, d.toList = .ok items → ofList items = d ∧ d.length = .ok items.length) ∧
      (d.isList = false → d.toList = .error (.malformedList d.terminator) ∧
        d.length = .error (.malformedList d.terminator)) ∧
      d.toList = match Cursor.walk d with
        | (items, none, _) => .ok items
        | (_, some fault, _) => .error fault) ∧
    ∀ (items : List Datum) (tail : Datum),
      (∀ n, Cursor.steps ⟨ofListTail items tail⟩ (items.length + n) =
        (items.map (fun item => .ok (some item)) ++ (Cursor.steps ⟨tail⟩ n).1,
          (Cursor.steps ⟨tail⟩ n).2)) ∧
      Cursor.walk (ofListTail items tail) =
        (items ++ (Cursor.walk tail).1, (Cursor.walk tail).2) := by
  refine ⟨fun items => ?_, fun d => ⟨?_, ?_, ?_, ?_, ?_⟩, fun items tail => ⟨?_, ?_⟩⟩
  · exact ⟨Datum.toList_eq_ok_iff.2 rfl, Datum.isList_ofList items, Datum.length_ofList items⟩
  · constructor
    · intro hlist
      exact ⟨d.spine, Datum.toList_of_isList hlist⟩
    · rintro ⟨items, hitems⟩
      rw [Datum.toList_eq_ok_iff.1 hitems]
      exact Datum.isList_ofList items
  · constructor
    · intro hlist
      rw [Datum.length_eq]
      exact ⟨d.spine.length, Datum.endOfList_eq_ok_iff.2 ⟨Datum.isList_iff.1 hlist, rfl⟩⟩
    · rintro ⟨n, hn⟩
      rw [Datum.length_eq] at hn
      exact Datum.isList_iff.2 (Datum.endOfList_eq_ok_iff.1 hn).1
  · intro items hitems
    obtain rfl := Datum.toList_eq_ok_iff.1 hitems
    exact ⟨rfl, Datum.length_ofList items⟩
  · intro hlist
    exact Datum.refused_of_not_isList hlist
  · exact Datum.toList_eq_walk d
  · intro n
    exact Cursor.steps_ofListTail items tail n
  · exact Cursor.walk_ofListTail items tail

end BelLisp
