import BelLisp.Proofs.Lists
import BelLisp.Proofs.Operations

/-!
# The arguments of a primitive

A primitive takes its arguments off a chain, one at a time, and has room for as many as its arity
says. It notices an argument without room for it before it notices what the chain ends in. So the
length of the spine decides first, and the terminator only if there was room for the whole spine
(`takeOperands_eq`). A list that is accepted is worth as much as the list of its elements filled up
with `nil` (`apply_eq_apply_filled`), and on a list of full length each primitive has an answer of
its own.

The main statement is `operands_exact`.
-/

set_option autoImplicit false

namespace BelLisp.Primitive

open Datum (ofList)

/-- The given arguments, filled up with `nil` to a number of arguments. -/
def filled (count : Nat) (items : List Datum) : List Datum :=
  items ++ List.replicate (count - items.length) .nil

/-- The primitive fails on an argument list with a fault of this kind. -/
def Refuses (primitive : Primitive) (kind : FaultKind) (args : Datum) : Prop :=
  ∃ fault, primitive.apply args = .error fault ∧ fault.kind = kind

/-- The primitive answers with a part of its one argument: `nil` has `nil` parts, a pair has the
part that is chosen, and no other object has parts. -/
structure TakesPart (primitive : Primitive) (choose : Datum → Datum → Datum) : Prop where
  of_nil : primitive.apply (ofList [.nil]) = .ok .nil
  of_pair : ∀ car cdr, primitive.apply (ofList [.pair car cdr]) = .ok (choose car cdr)
  of_other : ∀ d : Datum, d ≠ .nil → (∀ car cdr, d ≠ .pair car cdr) →
    primitive.Refuses .typeMismatch (ofList [d])

/-! ## Filling up -/

theorem length_filled {count : Nat} {items : List Datum} (h : items.length ≤ count) :
    (filled count items).length = count := by
  rw [filled, List.length_append, List.length_replicate]
  omega

theorem filled_of_length_eq {count : Nat} {items : List Datum} (h : items.length = count) :
    filled count items = items := by
  rw [filled, h, Nat.sub_self]
  exact List.append_nil items

theorem filled_cons (count : Nat) (item : Datum) (items : List Datum) :
    filled (count + 1) (item :: items) = item :: filled count items := by
  rw [filled, List.length_cons, Nat.add_sub_add_right]
  rfl

section Arguments

variable {primitive : Primitive} {args : Datum}

/-! ## Taking the arguments -/

/-- A chain with more elements than there is room for is refused whatever it ends in. Any other
chain must be a list, and its elements are filled up. -/
theorem takeOperands_eq (primitive : Primitive) (args : Datum) (room : Nat) (rest : Datum) :
    primitive.takeOperands args room rest =
      if room < rest.spine.length then
        .error (.surplusOperands primitive.name primitive.arity args)
      else Datum.endOfList rest.terminator (filled room rest.spine) := by
  induction room generalizing rest with
  | zero =>
      cases rest with
      | pair operand rest => rfl
      | sym _ | chr _ | stream => rfl
  | succ room ih =>
      cases rest with
      | pair operand rest =>
          rw [takeOperands, ih rest, Datum.spine, Datum.terminator, List.length_cons, filled_cons]
          -- one argument less with one place less: the comparison is the same
          by_cases hroom : room < rest.spine.length
          · rw [if_pos hroom, if_pos (Nat.succ_lt_succ hroom)]
          · rw [if_neg hroom, if_neg fun h => hroom (Nat.lt_of_succ_lt_succ h)]
            rw [Datum.endOfList, Datum.endOfList]
            cases rest.terminator.isNil <;> rfl
      | sym _ | chr _ | stream => rfl

theorem apply_of_lt (h : primitive.arity < args.spine.length) :
    primitive.apply args = .error (.surplusOperands primitive.name primitive.arity args) := by
  rw [apply, operands, takeOperands_eq, if_pos h]

theorem apply_of_le_of_ne (h : args.spine.length ≤ primitive.arity)
    (hend : args.terminator ≠ .nil) :
    primitive.apply args = .error (.malformedList args.terminator) := by
  rw [apply, operands, takeOperands_eq, if_neg (Nat.not_lt.2 h),
    Datum.endOfList_eq_error_iff.2 ⟨hend, rfl⟩]

theorem apply_of_le (h : args.spine.length ≤ primitive.arity) (hend : args.terminator = .nil) :
    primitive.apply args = primitive.onOperands (filled primitive.arity args.spine) := by
  rw [apply, operands, takeOperands_eq, if_neg (Nat.not_lt.2 h),
    Datum.endOfList_eq_ok_iff.2 ⟨hend, rfl⟩]

/-- On a list of full length there is nothing to fill up. -/
theorem apply_ofList {items : List Datum} (h : items.length = primitive.arity) :
    primitive.apply (ofList items) = primitive.onOperands items := by
  have hspine : (ofList items).spine.length ≤ primitive.arity := by
    rw [Datum.spine_ofList]
    exact Nat.le_of_eq h
  rw [apply_of_le hspine (Datum.terminator_ofList items), Datum.spine_ofList,
    filled_of_length_eq h]

/-- A list that leaves arguments out is worth as much as the list in which they are `nil`. -/
theorem apply_eq_apply_filled (h : args.spine.length ≤ primitive.arity)
    (hend : args.terminator = .nil) :
    primitive.apply args = primitive.apply (ofList (filled primitive.arity args.spine)) := by
  rw [apply_of_le h hend, apply_ofList (length_filled h)]

/-! ## The answers on full lists -/

theorem apply_join (car cdr : Datum) :
    Primitive.join.apply (ofList [car, cdr]) = .ok (.pair car cdr) := by
  rw [apply_ofList rfl]
  rfl

/-- A primitive that hands its one argument to `part` takes a part of it. -/
theorem takesPart_of_onOperands {choose : Datum → Datum → Datum} (harity : primitive.arity = 1)
    (hpart : ∀ d, primitive.onOperands [d] = primitive.part choose d) :
    primitive.TakesPart choose := by
  have happly : ∀ d, primitive.apply (ofList [d]) = primitive.part choose d := by
    intro d
    have hfull : [d].length = primitive.arity := harity.symm
    rw [apply_ofList hfull, hpart]
  refine ⟨?_, ?_, ?_⟩
  · rw [happly]
    rfl
  · intro car cdr
    rw [happly]
    rfl
  · intro d hnil hpair
    rw [Refuses, happly]
    exact ⟨_, part_eq_error_iff.2 ⟨hnil, hpair, rfl⟩, rfl⟩

theorem takesPart_car : Primitive.car.TakesPart fun car _ => car :=
  takesPart_of_onOperands rfl fun _ => rfl

theorem takesPart_cdr : Primitive.cdr.TakesPart fun _ cdr => cdr :=
  takesPart_of_onOperands rfl fun _ => rfl

theorem sameSymbol_iff {a b : Datum} :
    sameSymbol a b = true ↔ ∃ name, a = .sym name ∧ b = .sym name := by
  constructor
  · intro h
    cases a <;> cases b <;> simp_all [sameSymbol]
  · rintro ⟨name, rfl, rfl⟩
    exact beq_self_eq_true name

theorem apply_id (a b : Datum) :
    Primitive.id.apply (ofList [a, b]) = .ok (.ofBool (sameSymbol a b)) := by
  rw [apply_ofList rfl]
  rfl

/-- `t` answers for two symbols of one name and `nil` for everything else. -/
theorem apply_id_iff (a b : Datum) :
    (Primitive.id.apply (ofList [a, b]) = .ok .t ↔ ∃ name, a = .sym name ∧ b = .sym name) ∧
      (Primitive.id.apply (ofList [a, b]) = .ok .nil ↔
        ¬ ∃ name, a = .sym name ∧ b = .sym name) := by
  rw [apply_id, ← sameSymbol_iff]
  cases sameSymbol a b <;> simp [Datum.ofBool, Datum.nil, Datum.t]

/-! ## What is refused -/

theorem kind_of_part {choose : Datum → Datum → Datum} {d : Datum} {fault : Fault}
    (h : primitive.part choose d = .error fault) : fault.kind = .typeMismatch := by
  obtain ⟨-, -, rfl⟩ := part_eq_error_iff.1 h
  rfl

/-- Once its arguments have been taken, a primitive can only object to what they are. -/
theorem kind_of_onOperands {operands : List Datum} {fault : Fault}
    (h : primitive.onOperands operands = .error fault) : fault.kind = .typeMismatch := by
  cases primitive with
  | id => cases h
  | join => cases h
  | car => exact kind_of_part h
  | cdr => exact kind_of_part h

theorem refuses_iff_of_error {fault : Fault} (h : primitive.apply args = .error fault)
    (kind : FaultKind) : primitive.Refuses kind args ↔ fault.kind = kind := by
  constructor
  · rintro ⟨found, hfound, hkind⟩
    rw [h] at hfound
    cases hfound
    exact hkind
  · intro hkind
    exact ⟨fault, h, hkind⟩

theorem kind_of_refuses (h : args.spine.length ≤ primitive.arity) (hend : args.terminator = .nil)
    {kind : FaultKind} (hrefuses : primitive.Refuses kind args) : kind = .typeMismatch := by
  obtain ⟨fault, hfault, rfl⟩ := hrefuses
  rw [apply_of_le h hend] at hfault
  exact kind_of_onOperands hfault

theorem refuses_arityMismatch_iff :
    primitive.Refuses .arityMismatch args ↔ primitive.arity < args.spine.length := by
  by_cases hlt : primitive.arity < args.spine.length
  · rw [refuses_iff_of_error (apply_of_lt hlt)]
    exact iff_of_true rfl hlt
  · have hle := Nat.not_lt.1 hlt
    refine iff_of_false (fun hrefuses => ?_) hlt
    by_cases hend : args.terminator = .nil
    · cases kind_of_refuses hle hend hrefuses
    · cases (refuses_iff_of_error (apply_of_le_of_ne hle hend) _).1 hrefuses

theorem refuses_malformedList_iff :
    primitive.Refuses .malformedList args ↔
      args.spine.length ≤ primitive.arity ∧ args.terminator ≠ .nil := by
  constructor
  · intro hrefuses
    have hle : args.spine.length ≤ primitive.arity := by
      -- with too many arguments the end of the chain is never looked at
      apply Nat.not_lt.1
      intro hlt
      cases (refuses_iff_of_error (apply_of_lt hlt) _).1 hrefuses
    refine ⟨hle, fun hend => ?_⟩
    cases kind_of_refuses hle hend hrefuses
  · rintro ⟨hle, hend⟩
    exact (refuses_iff_of_error (apply_of_le_of_ne hle hend) _).2 rfl

end Arguments

/-- **Primitives take their arguments exactly.** There are four of them, with these names and
arities. A chain with more elements than the arity is refused for their number, whatever it ends in,
and a chain with no more elements that does not end in `nil` is refused as no list; nothing else is
refused in these ways. Any other argument list is worth as much as the list of its elements filled
up with `nil`. On a full list `join` answers with the pair of its arguments, `id` with `t` for two
symbols of one name and with `nil` for all else, and `car` and `cdr` take a part. So `car` and `cdr`
undo `join`, and `join` puts a pair together again. -/
theorem operands_exact :
    (Registry.standard.map fun entry => (entry.1, entry.2, entry.2.arity)) =
      [("id", .id, 2), ("join", .join, 2), ("car", .car, 1), ("cdr", .cdr, 1)] ∧
    (∀ (primitive : Primitive) (args : Datum),
      (primitive.Refuses .arityMismatch args ↔ primitive.arity < args.spine.length) ∧
      (primitive.Refuses .malformedList args ↔
        args.spine.length ≤ primitive.arity ∧ args.terminator ≠ .nil) ∧
      (args.spine.length ≤ primitive.arity → args.terminator = .nil →
        primitive.apply args = primitive.apply (ofList (filled primitive.arity args.spine)))) ∧
    (∀ a b : Datum, Primitive.join.apply (ofList [a, b]) = .ok (.pair a b) ∧
      (Primitive.id.apply (ofList [a, b]) = .ok .t ↔ ∃ name, a = .sym name ∧ b = .sym name) ∧
      (Primitive.id.apply (ofList [a, b]) = .ok .nil ↔
        ¬ ∃ name, a = .sym name ∧ b = .sym name)) ∧
    Primitive.car.TakesPart (fun car _ => car) ∧ Primitive.cdr.TakesPart (fun _ cdr => cdr) ∧
    (∀ a b : Datum, ∃ joined, Primitive.join.apply (ofList [a, b]) = .ok joined ∧
      Primitive.car.apply (ofList [joined]) = .ok a ∧
      Primitive.cdr.apply (ofList [joined]) = .ok b) ∧
    ∀ car cdr : Datum, ∃ first second joined,
      Primitive.car.apply (ofList [.pair car cdr]) = .ok first ∧
      Primitive.cdr.apply (ofList [.pair car cdr]) = .ok second ∧
      Primitive.join.apply (ofList [first, second]) = .ok joined ∧
      joined.same (.pair car cdr) = true := by
  refine ⟨rfl, fun primitive args => ⟨?_, ?_, ?_⟩, fun a b => ⟨?_, ?_⟩, takesPart_car,
    takesPart_cdr, fun a b => ?_, fun car cdr => ?_⟩
  · exact refuses_arityMismatch_iff
  · exact refuses_malformedList_iff
  · exact apply_eq_apply_filled
  · exact apply_join a b
  · exact apply_id_iff a b
  · exact ⟨_, apply_join a b, takesPart_car.of_pair a b, takesPart_cdr.of_pair a b⟩
  · exact ⟨car, cdr, _, takesPart_car.of_pair car cdr, takesPart_cdr.of_pair car cdr,
      apply_join car cdr, Datum.same_refl _⟩

end BelLisp.Primitive
