import BelLisp.Proofs.Context
import BelLisp.Proofs.Eval.Runs

/-!
# What the operations of the evaluator return

Primitives, the binding of arguments, and the reading of literals and definitions do not look at the
context. Two things are said of each of them. None of them fails with a fault about an unknown
function or primitive: their faults are ordinary. Apart from the reading of literals they even fail
with a mismatch only, a fault about the objects that they were given. And a property of objects that
passes between a pair and its parts, and holds of `nil` and `t`, passes from the arguments to what
they return.
-/

set_option autoImplicit false

namespace BelLisp

/-- A fault about anything but an unknown function, macro or primitive. -/
def Fault.IsOrdinary (fault : Fault) : Prop :=
  fault.kind ≠ .unknownFunction ∧ fault.kind ≠ .unknownPrimitive

/-- A fault about objects that do not fit: no list, not of the kind that is wanted, or too many. -/
def Fault.IsMismatch (fault : Fault) : Prop :=
  fault.kind ∈ [FaultKind.malformedList, .typeMismatch, .arityMismatch]

/-- A property of objects that a pair has exactly if its parts have it. -/
structure Datum.Hereditary (p : Datum → Prop) : Prop where
  pair_iff : ∀ {car cdr : Datum}, p (.pair car cdr) ↔ p car ∧ p cdr
  nil : p .nil
  t : p .t

theorem Datum.hereditary_true : Datum.Hereditary fun _ => True :=
  ⟨by simp, trivial, trivial⟩

/-- Every value that the table gives has the property. -/
def Table.All (p : Datum → Prop) (table : Table) : Prop :=
  ∀ ⦃name value⦄, table.get? name = some value → p value

theorem Table.all_empty (p : Datum → Prop) : Table.empty.All p := by
  intro name value h
  simp [Table.empty, Table.get?] at h

theorem Table.All.define {p : Datum → Prop} {table : Table} (h : table.All p) (name : String)
    {value : Datum} (hvalue : p value) : (table.define name value).All p := by
  intro other found hfound
  rw [Table.get?_define] at hfound
  split at hfound
  · cases hfound
    exact hvalue
  · exact h hfound

/-! ## Faults -/

/-- Whether a fault is ordinary can be read off its kind. -/
theorem Fault.isOrdinary_of_kind {fault : Fault}
    (h : decide (fault.kind ≠ .unknownFunction ∧ fault.kind ≠ .unknownPrimitive) = true) :
    fault.IsOrdinary := by
  simpa [IsOrdinary] using h

/-- Whether a fault is a mismatch can be read off its kind. -/
theorem Fault.isMismatch_of_kind {fault : Fault}
    (h : decide (fault.kind ∈ [FaultKind.malformedList, .typeMismatch, .arityMismatch]) = true) :
    fault.IsMismatch := by
  simpa [IsMismatch] using h

theorem Fault.IsMismatch.kind_ne {fault : Fault} (h : fault.IsMismatch) {kind : FaultKind}
    (hkind : kind ∉ [FaultKind.malformedList, .typeMismatch, .arityMismatch]) :
    fault.kind ≠ kind := by
  intro heq
  apply hkind
  rw [← heq]
  exact h

theorem Fault.IsMismatch.isOrdinary {fault : Fault} (h : fault.IsMismatch) : fault.IsOrdinary :=
  ⟨h.kind_ne (by decide), h.kind_ne (by decide)⟩

theorem Datum.isMismatch_endOfList {α : Type} {rest : Datum} {value : α} {fault : Fault}
    (h : endOfList rest value = .error fault) : fault.IsMismatch := by
  obtain ⟨-, rfl⟩ := endOfList_eq_error_iff.1 h
  exact Fault.isMismatch_of_kind rfl

theorem Datum.isMismatch_toList {d : Datum} {fault : Fault} (h : d.toList = .error fault) :
    fault.IsMismatch := by
  induction d with
  | pair car cdr _ ih =>
      rw [toList] at h
      split at h
      · simp at h
      · rename_i inner hinner
        cases h
        exact ih hinner
  | sym _ | chr _ | stream => exact isMismatch_endOfList h

theorem Datum.isMismatch_length {d : Datum} {fault : Fault} (h : d.length = .error fault) :
    fault.IsMismatch := by
  induction d with
  | pair car cdr _ ih =>
      rw [length] at h
      split at h
      · simp at h
      · rename_i inner hinner
        cases h
        exact ih hinner
  | sym _ | chr _ | stream => exact isMismatch_endOfList h

theorem Context.isOrdinary_lookup {ctx : Context} {locals : Table} {name : String} {fault : Fault}
    (h : ctx.lookup locals name = .error fault) : fault.IsOrdinary := by
  obtain ⟨-, -, rfl⟩ := lookup_eq_error_iff.1 h
  exact Fault.isOrdinary_of_kind rfl

namespace Primitive

theorem isMismatch_takeOperands {primitive : Primitive} {args rest : Datum} {room : Nat}
    {fault : Fault} (h : primitive.takeOperands args room rest = .error fault) :
    fault.IsMismatch := by
  fun_induction takeOperands primitive args room rest with
  | case1 car cdr =>
      cases h
      exact Fault.isMismatch_of_kind rfl
  | case2 room operand rest operands _ _ => simp at h
  | case3 room operand rest inner hinner ih =>
      cases h
      exact ih hinner
  | case4 room rest _ _ => exact Datum.isMismatch_endOfList h

/-- A pair has two parts, `nil` counts as a pair of `nil` and `nil`, and nothing else has parts. -/
theorem part_cases (primitive : Primitive) (choose : Datum → Datum → Datum) (d : Datum) :
    (∃ a b, d = .pair a b ∧ primitive.part choose d = .ok (choose a b)) ∨
    (d = .nil ∧ primitive.part choose d = .ok .nil) ∨
    primitive.part choose d = .error (.wrongOperand primitive.name d) := by
  fun_cases part primitive choose d with
  | case1 a b => exact .inl ⟨a, b, rfl, rfl⟩
  | case2 d _ hnil => exact .inr (.inl ⟨Datum.isNil_iff.1 hnil, rfl⟩)
  | case3 d _ _ => exact .inr (.inr rfl)

/-- Exactly the objects that are neither `nil` nor a pair have no parts. -/
theorem part_eq_error_iff {primitive : Primitive} {choose : Datum → Datum → Datum} {d : Datum}
    {fault : Fault} :
    primitive.part choose d = .error fault ↔
      d ≠ .nil ∧ (∀ car cdr, d ≠ .pair car cdr) ∧ fault = .wrongOperand primitive.name d := by
  fun_cases part primitive choose d with
  | case1 car cdr => simp
  | case2 d _ hnil =>
      rw [Datum.isNil_iff] at hnil
      simp [hnil]
  | case3 d hpair hnil =>
      rw [Datum.isNil_iff] at hnil
      simp only [Except.error.injEq, ne_eq, hnil, not_false_eq_true, true_and]
      exact ⟨fun h => ⟨hpair, h.symm⟩, fun h => h.2.symm⟩

theorem isMismatch_part {primitive : Primitive} {choose : Datum → Datum → Datum} {d : Datum}
    {fault : Fault} (h : primitive.part choose d = .error fault) : fault.IsMismatch := by
  obtain ⟨-, -, rfl⟩ := part_eq_error_iff.1 h
  exact Fault.isMismatch_of_kind rfl

theorem isMismatch_apply {primitive : Primitive} {args : Datum} {fault : Fault}
    (h : primitive.apply args = .error fault) : fault.IsMismatch := by
  rw [apply] at h
  split at h
  · cases primitive with
    | id => simp [onOperands] at h
    | join => simp [onOperands] at h
    | car => exact isMismatch_part h
    | cdr => exact isMismatch_part h
  · rename_i inner hinner
    cases h
    exact isMismatch_takeOperands hinner

end Primitive

namespace Closure

theorem isMismatch_ofDefinition {form : String} {args : Datum} {fault : Fault}
    (h : ofDefinition form args = .error fault) : fault.IsMismatch := by
  rw [ofDefinition] at h
  split at h
  · rename_i inner hinner
    cases h
    exact Datum.isMismatch_toList hinner
  · simp at h
  · cases h
    exact Fault.isMismatch_of_kind rfl
  · cases h
    exact Fault.isMismatch_of_kind rfl

theorem isOrdinary_ofLiteral {name : String} {object : Datum} {fault : Fault}
    (h : ofLiteral name object = .error fault) : fault.IsOrdinary := by
  rw [ofLiteral] at h
  split at h
  · simp at h
  · cases h
    exact Fault.isOrdinary_of_kind rfl

theorem isOrdinary_ofExpanderLiteral {name : String} {object : Datum} {fault : Fault}
    (h : ofExpanderLiteral name object = .error fault) : fault.IsOrdinary := by
  rw [ofExpanderLiteral] at h
  split at h
  · exact isOrdinary_ofLiteral h
  · cases h
    exact Fault.isOrdinary_of_kind rfl

theorem isMismatch_bindParams {locals : Table} {params args : Datum} {fault : Fault}
    (h : bindParams locals params args = .error fault) : fault.IsMismatch := by
  fun_induction bindParams locals params args with
  | case1 locals name params arg args ih => exact ih h
  | case2 locals name params args _ _ ih => exact ih h
  | case3 locals name params args _ _ =>
      cases h
      exact Fault.isMismatch_of_kind rfl
  | case4 locals found params args _ =>
      cases h
      exact Fault.isMismatch_of_kind rfl
  | case5 locals params args _ _ => exact Datum.isMismatch_endOfList h

theorem isMismatch_bind {f : Closure} {args : Datum} {fault : Fault}
    (h : f.bind args = .error fault) : fault.IsMismatch := by
  rw [bind, bindArguments] at h
  split at h
  · rename_i inner hinner
    cases h
    exact isMismatch_bindParams hinner
  · split at h
    · cases h
      exact Fault.isMismatch_of_kind rfl
    · rename_i inner hinner
      cases h
      exact Datum.isMismatch_length hinner
    · rename_i inner hinner _
      cases h
      exact Datum.isMismatch_length hinner
  · exact Datum.isMismatch_endOfList h

end Closure

/-! ## Values -/

section Values

variable {p : Datum → Prop} (hp : Datum.Hereditary p)
include hp

theorem Datum.Hereditary.ofBool (flag : Bool) : p (.ofBool flag) := by
  cases flag with
  | true => exact hp.t
  | false => exact hp.nil

namespace Primitive

theorem forall_mem_takeOperands {primitive : Primitive} {args rest : Datum} {room : Nat}
    {operands : List Datum} (hrest : p rest)
    (h : primitive.takeOperands args room rest = .ok operands) : ∀ d ∈ operands, p d := by
  fun_induction takeOperands primitive args room rest generalizing operands with
  | case1 car cdr => simp at h
  | case2 room operand rest operands' hoperands ih =>
      cases h
      obtain ⟨hoperand, hmore⟩ := hp.pair_iff.1 hrest
      exact List.forall_mem_cons.2 ⟨hoperand, ih hmore hoperands⟩
  | case3 room operand rest fault _ _ => simp at h
  | case4 room rest _ _ =>
      obtain ⟨-, rfl⟩ := Datum.endOfList_eq_ok_iff.1 h
      intro d hd
      rw [List.eq_of_mem_replicate hd]
      exact hp.nil

theorem part_hereditary {primitive : Primitive} {choose : Datum → Datum → Datum} {d value : Datum}
    (hchoose : ∀ {a b : Datum}, p a → p b → p (choose a b)) (hd : p d)
    (h : primitive.part choose d = .ok value) : p value := by
  rcases part_cases primitive choose d with ⟨a, b, rfl, heq⟩ | ⟨-, heq⟩ | heq
  · rw [heq] at h
    cases h
    obtain ⟨ha, hb⟩ := hp.pair_iff.1 hd
    exact hchoose ha hb
  · rw [heq] at h
    cases h
    exact hp.nil
  · rw [heq] at h
    cases h

/-- The value of a primitive has every hereditary property of its arguments. -/
theorem apply_hereditary {primitive : Primitive} {args value : Datum} (hargs : p args)
    (h : primitive.apply args = .ok value) : p value := by
  rw [apply] at h
  split at h
  · rename_i operands hoperands
    have hall := forall_mem_takeOperands hp hargs hoperands
    -- an operand that was left out counts as nil
    have hget : ∀ i, p (operands.getD i .nil) := by
      intro i
      rw [List.getD_eq_getElem?_getD]
      cases hi : operands[i]? with
      | none => exact hp.nil
      | some d => exact hall d (List.mem_of_getElem? hi)
    cases primitive with
    | id =>
        cases h
        exact hp.ofBool _
    | join =>
        cases h
        exact hp.pair_iff.2 ⟨hget 0, hget 1⟩
    | car => exact part_hereditary hp (fun ha _ => ha) (hget 0) h
    | cdr => exact part_hereditary hp (fun _ hb => hb) (hget 0) h
  · simp at h

end Primitive

namespace Closure

theorem bindParams_hereditary {locals bound : Table} {params args rest : Datum}
    (hlocals : locals.All p) (hargs : p args)
    (h : bindParams locals params args = .ok (bound, rest)) : bound.All p := by
  fun_induction bindParams locals params args with
  | case1 locals name params arg args ih =>
      obtain ⟨harg, hmore⟩ := hp.pair_iff.1 hargs
      exact ih (hlocals.define name harg) hmore h
  | case2 locals name params args _ _ ih => exact ih (hlocals.define name hp.nil) hargs h
  | case3 locals name params args _ _ => simp at h
  | case4 locals found params args _ => simp at h
  | case5 locals params args _ _ =>
      obtain ⟨-, hbound⟩ := Datum.endOfList_eq_ok_iff.1 h
      cases hbound
      exact hlocals

/-- The locals of a call have every hereditary property of the arguments. -/
theorem bind_hereditary {f : Closure} {args : Datum} {bound : Table} (hargs : p args)
    (h : f.bind args = .ok bound) : bound.All p := by
  rw [bind, bindArguments] at h
  split at h
  · simp at h
  · split at h <;> simp at h
  · rename_i locals rest _ hbound
    obtain ⟨-, rfl⟩ := Datum.endOfList_eq_ok_iff.1 h
    exact bindParams_hereditary hp (Table.all_empty p) hargs hbound

end Closure

end Values

end BelLisp
