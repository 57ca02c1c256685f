import BelLisp.Proofs.Lists
import Mathlib.Data.List.Forall2

/-!
# When two objects are the same

The comparison of two objects answers for their structure: `Datum.SameStructure` has one rule for
each kind of object, says nothing about the order in which parts are looked at, and is what the
comparison decides (`Datum.same_iff_sameStructure`).

Two pairs are compared along their chains. A round of such a walk (`Comparison.round`) compares the
elements in front and moves on in both chains; it stops at a difference, at the end of the second
chain before the first, and at the end of the first chain, where what is left of either is compared.
No round changes the answer to come (`Comparison.outcome_round`), and the first chain is used up
after as many rounds as it has elements, so the rounds end with the answer of the comparison
(`Comparison.rounds_eq_answer`). Two objects are therefore the same exactly if their spines are,
place by place, and their terminators are (`Datum.same_iff_spine`).

The main statement is `same_is_structural`.
-/

set_option autoImplicit false

namespace BelLisp

/-! ## Structure -/

namespace Datum

/-- Two objects have the same structure: they are of one kind, with one name or text, and the parts
of pairs have the same structure again. -/
inductive SameStructure : Datum → Datum → Prop where
  | sym (name : String) : SameStructure (.sym name) (.sym name)
  | pair {car cdr car' cdr' : Datum} (hcar : SameStructure car car')
      (hcdr : SameStructure cdr cdr') : SameStructure (.pair car cdr) (.pair car' cdr')
  | chr (text : String) : SameStructure (.chr text) (.chr text)
  | stream : SameStructure .stream .stream

variable {a b : Datum}

theorem SameStructure.refl (d : Datum) : d.SameStructure d := by
  induction d with
  | sym name => exact .sym name
  | pair car cdr ihCar ihCdr => exact .pair ihCar ihCdr
  | chr text => exact .chr text
  | stream => exact .stream

theorem sameStructure_iff_eq : a.SameStructure b ↔ a = b := by
  constructor
  · intro h
    induction h with
    | pair _ _ ihCar ihCdr => rw [ihCar, ihCdr]
    | sym _ | chr _ | stream => rfl
  · rintro rfl
    exact .refl a

theorem same_iff_sameStructure : a.same b = true ↔ a.SameStructure b :=
  same_iff.trans sameStructure_iff_eq.symm

theorem equivalence_same : Equivalence fun a b : Datum => a.same b = true := by
  simp only [same_iff]
  exact eq_equivalence

/-- It does not matter which of two objects makes the comparison. -/
theorem same_comm (a b : Datum) : a.same b = b.same a := by
  apply Bool.eq_iff_iff.2
  rw [same_iff, same_iff]
  exact eq_comm

theorem same_eq_false_of_kindName_ne (h : a.kindName ≠ b.kindName) : a.same b = false := by
  apply Bool.eq_false_iff.2
  intro hsame
  exact h (congrArg kindName (eq_of_same hsame))

theorem eq_iff_spine : a = b ↔ a.spine = b.spine ∧ a.terminator = b.terminator := by
  constructor
  · rintro rfl
    exact ⟨rfl, rfl⟩
  · rintro ⟨hspine, hend⟩
    rw [← ofListTail_spine a, hspine, hend, ofListTail_spine]

/-- Two objects are the same if the elements of their spines are, place by place, and no spine is
longer, and what they end in is. -/
theorem same_iff_spine :
    a.same b = true ↔ List.Forall₂ (fun x y => x.same y = true) a.spine b.spine ∧
      a.terminator.same b.terminator = true := by
  simp only [same_iff, List.forall₂_eq_eq_eq]
  exact eq_iff_spine

end Datum

/-! ## Rounds along two chains -/

/-- How far the comparison of two chains has come: to a place in either, or to its answer. -/
inductive Comparison where
  | places (first second : Datum)
  | answer (same : Bool)

namespace Comparison

/-- One round. As long as the first chain goes on, the second has to go on with the same element;
what the first chain ends in is compared with what is left of the second. -/
def round : Comparison → Comparison
  | .places (.pair car cdr) (.pair car' cdr') =>
    if car.same car' then .places cdr cdr' else .answer false
  | .places (.pair _ _) _ => .answer false
  | .places ending rest => .answer (ending.same rest)
  | .answer same => .answer same

/-- So many rounds. -/
def rounds : Nat → Comparison → Comparison
  | 0, comparison => comparison
  | n + 1, comparison => rounds n comparison.round

/-- The answer, also if it is still to come. -/
def outcome : Comparison → Bool
  | .places first second => first.same second
  | .answer same => same

/-- A bound for the rounds that are left. -/
def remaining : Comparison → Nat
  | .places first _ => first.spine.length + 1
  | .answer _ => 0

/-- A round does not change the answer. -/
theorem outcome_round (comparison : Comparison) :
    comparison.round.outcome = comparison.outcome := by
  fun_cases round comparison with
  | case1 car cdr car' cdr' hcar => simp [outcome, Datum.same, hcar]
  | case2 car cdr car' cdr' hcar => simp [outcome, Datum.same, hcar]
  | case3 car cdr second hpair =>
      -- a chain that goes on is not the same as an object that is no pair
      cases second with
      | pair car' cdr' => exact absurd rfl (hpair car' cdr')
      | sym _ | chr _ | stream => rfl
  | case4 ending rest _ _ => rfl
  | case5 same => rfl

/-- A round that is not yet at the answer uses up an element of the first chain or ends there. -/
theorem remaining_round_le (comparison : Comparison) :
    comparison.round.remaining ≤ comparison.remaining - 1 := by
  fun_cases round comparison with
  | case1 car cdr car' cdr' hcar => exact Nat.le_refl _
  | _ => exact Nat.zero_le _

/-- After enough rounds the comparison is at its answer. -/
theorem rounds_eq_answer {n : Nat} {comparison : Comparison} (h : comparison.remaining ≤ n) :
    rounds n comparison = .answer comparison.outcome := by
  induction n generalizing comparison with
  | zero =>
      cases comparison with
      | places first second => exact absurd h (Nat.not_succ_le_zero _)
      | answer same => rfl
  | succ n ih =>
      -- the first of the rounds leaves less to do and keeps the answer that is to come
      have hless : comparison.round.remaining ≤ n := by
        have hround := remaining_round_le comparison
        omega
      rw [rounds, ih hless, outcome_round]

end Comparison

theorem Closure.same_iff_sameStructure {f g : Closure} :
    f.same g = true ↔
      f.name = g.name ∧ f.params.SameStructure g.params ∧ f.body.SameStructure g.body := by
  rw [Closure.same, Bool.and_eq_true, Bool.and_eq_true, beq_iff_eq, Datum.same_iff_sameStructure,
    Datum.same_iff_sameStructure, and_assoc]

/-- **Objects are the same by their structure.** Two objects are the same exactly if they have the
same structure, which is to say that they are equal. Either of them may make the comparison, and
objects of different kinds are never the same. They are the same exactly if their spines are, place
by place and to the same length, and what they end in is; the rounds along the two chains come to
this answer, with one round more than the first has elements. So sameness is an equivalence, and two
functions are the same exactly if they have one name and parameters and bodies of the same
structure. -/
theorem same_is_structural :
    (∀ a b : Datum,
      (a.same b = true ↔ a.SameStructure b) ∧ (a.SameStructure b ↔ a = b) ∧
      a.same b = b.same a ∧
      (a.kindName ≠ b.kindName → a.same b = false) ∧
      (a.same b = true ↔ List.Forall₂ (fun x y => x.same y = true) a.spine b.spine ∧
        a.terminator.same b.terminator = true) ∧
      ∀ n, a.spine.length < n → Comparison.rounds n (.places a b) = .answer (a.same b)) ∧
    (Equivalence fun a b : Datum => a.same b = true) ∧
    ∀ f g : Closure, f.same g = true ↔
      f.name = g.name ∧ f.params.SameStructure g.params ∧ f.body.SameStructure g.body := by
  refine ⟨fun a b => ⟨?_, ?_, ?_, ?_, ?_, ?_⟩, Datum.equivalence_same, fun f g => ?_⟩
  · exact Datum.same_iff_sameStructure
  · exact Datum.sameStructure_iff_eq
  · exact Datum.same_comm a b
  · exact Datum.same_eq_false_of_kindName_ne
  · exact Datum.same_iff_spine
  · intro n hn
    exact Comparison.rounds_eq_answer hn
  · exact Closure.same_iff_sameStructure

end BelLisp
