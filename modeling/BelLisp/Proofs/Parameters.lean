import BelLisp.Proofs.Lists
import BelLisp.Proofs.Operations

/-!
# Parameters and their arguments

Binding walks the parameters and the arguments side by side. As long as the parameters are symbols,
each takes the next argument, or `nil` once there are none left (`Closure.bindParams_symbols`). What
the walk meets behind these symbols decides how it ends: an element that is not a symbol, a tail
that is not `nil`, or the end of the list, where no argument may be left over.

So binding succeeds exactly on a list of symbols and a list of at most as many arguments. A
parameter that stands in the list twice has the place of its first occurrence and the argument of
its last (`Closure.Binds`), which may be `nil` even if the first occurrence was given an argument.
-/

set_option autoImplicit false

namespace BelLisp

/-- Every sequence of objects starts with some symbols, up to its end or up to an object that is not
a symbol. -/
theorem Datum.exists_leading_symbols (items : List Datum) :
    ∃ names : List String, items = names.map .sym ∨
      ∃ found more, items = names.map .sym ++ found :: more ∧ found.isSymbol = false := by
  induction items with
  | nil => exact ⟨[], .inl rfl⟩
  | cons item items ih =>
      cases item with
      | sym name =>
          obtain ⟨names, rfl | ⟨found, more, rfl, hfound⟩⟩ := ih
          · exact ⟨name :: names, .inl rfl⟩
          · exact ⟨name :: names, .inr ⟨found, more, rfl, hfound⟩⟩
      | pair _ _ | chr _ | stream => exact ⟨[], .inr ⟨_, items, rfl, rfl⟩⟩

namespace Closure

/-- Every parameter with its argument; behind the last argument there is `nil` for each. -/
def supply : List String → List Datum → List (String × Datum)
  | [], _ => []
  | name :: names, values => (name, values.headD .nil) :: supply names values.tail

/-- The table has the parameters as its names, each in the place of its first occurrence, and binds
each to the argument at the place of its last occurrence, or to `nil` if there is none. -/
structure Binds (names : List String) (values : List Datum) (table : Table) : Prop where
  order : table.names = names.eraseDups
  value : ∀ i name, names[i]? = some name → name ∉ names.drop (i + 1) →
    table.get? name = some (values.getD i .nil)

/-- Why the parameters refuse a number of arguments, with the kind of the fault. They are scanned
from the left: an element that is not a symbol comes before anything behind it, then a tail that is
not `nil`, and only then too many arguments. -/
inductive Refuses (params : Datum) (given : Nat) : FaultKind → Fault → Prop where
  | element {names : List String} {found : Datum} {more : List Datum}
      (hspine : params.spine = names.map .sym ++ found :: more) (hfound : found.isSymbol = false) :
      Refuses params given .typeMismatch (.notParameter found)
  | tail {names : List String} (hspine : params.spine = names.map .sym)
      (htail : params.terminator ≠ .nil) :
      Refuses params given .malformedList (.malformedList params.terminator)
  | surplus {names : List String} (hparams : params = .ofList (names.map .sym))
      (hgiven : names.length < given) :
      Refuses params given .arityMismatch (.surplusArguments given names.length)

/-! ## Supplied arguments -/

theorem map_fst_supply (names : List String) (values : List Datum) :
    (supply names values).map Prod.fst = names := by
  induction names generalizing values with
  | nil => rfl
  | cons name names ih => rw [supply, List.map_cons, ih]

theorem getElem?_supply (names : List String) (values : List Datum) (i : Nat) :
    (supply names values)[i]? = names[i]?.map fun name => (name, values.getD i .nil) := by
  induction names generalizing values i with
  | nil => rfl
  | cons name names ih =>
      cases i with
      | zero => cases values <;> rfl
      | succ i =>
          rw [supply, List.getElem?_cons_succ, List.getElem?_cons_succ, ih]
          cases values <;> rfl

theorem binds_supply (names : List String) (values : List Datum) :
    Binds names values (Table.empty.defineAll (supply names values)) where
  order := by
    have hnew : names.removeAll Table.empty.names = names := List.filter_eq_self.2 fun _ _ => rfl
    rw [Table.names_defineAll, map_fst_supply, hnew]
    rfl
  value i name hname hlast := by
    have hentry : (supply names values)[i]? = some (name, values.getD i .nil) := by
      rw [getElem?_supply, hname]
      rfl
    have hlater : name ∉ ((supply names values).drop (i + 1)).map Prod.fst := by
      rwa [List.map_drop, map_fst_supply]
    rw [Table.get?_defineAll, Table.lookup_reverse_of_last hentry hlater, Option.some_or]

/-- A name that occurs has a last occurrence. -/
theorem exists_last_occurrence {names : List String} {name : String} (h : name ∈ names) :
    ∃ i, names[i]? = some name ∧ name ∉ names.drop (i + 1) := by
  induction names with
  | nil => cases h
  | cons first names ih =>
      by_cases hlater : name ∈ names
      · obtain ⟨i, hi, hlast⟩ := ih hlater
        exact ⟨i + 1, hi, hlast⟩
      · -- the first occurrence is the only one
        obtain rfl := (List.mem_cons.1 h).resolve_right hlater
        exact ⟨0, rfl, hlater⟩

/-- Parameters and arguments determine the table. -/
theorem Binds.unique {names : List String} {values : List Datum} {table other : Table}
    (h : Binds names values table) (hnodup : table.names.Nodup) (h' : Binds names values other) :
    other = table := by
  apply Table.eq_of_get? hnodup
  · rw [h'.order, h.order]
  · intro name hname
    rw [h.order, List.mem_eraseDups] at hname
    obtain ⟨i, hi, hlast⟩ := exists_last_occurrence hname
    rw [h'.value i name hi hlast, h.value i name hi hlast]

/-! ## The walk -/

/-- Leading symbols take their arguments one by one, and the walk goes on behind them. -/
theorem bindParams_symbols (names : List String) (rest : Datum) (values : List Datum)
    (locals : Table) :
    bindParams locals (.ofListTail (names.map .sym) rest) (.ofList values) =
      bindParams (locals.defineAll (supply names values)) rest
        (.ofList (values.drop names.length)) := by
  induction names generalizing values locals with
  | nil => rfl
  | cons name names ih =>
      cases values with
      | nil =>
          -- the arguments have run out: `nil` is bound and the walk stays at their end
          have hnext := ih [] (locals.define name .nil)
          rw [List.drop_nil] at hnext ⊢
          exact hnext
      | cons value values => exact ih values (locals.define name value)

/-- The walk moves along the chain of arguments only, so what it leaves ends as that chain does. -/
theorem terminator_of_bindParams {locals bound : Table} {params args rest : Datum}
    (h : bindParams locals params args = .ok (bound, rest)) :
    rest.terminator = args.terminator := by
  fun_induction bindParams locals params args with
  | case1 locals name params arg args ih => exact ih h
  | case2 locals name params args _ _ ih => exact ih h
  | case3 locals name params args _ _ => cases h
  | case4 locals found params args _ => cases h
  | case5 locals params args _ _ =>
      -- behind the last parameter the arguments are handed back as they are
      obtain ⟨-, heq⟩ := Datum.endOfList_eq_ok_iff.1 h
      cases heq
      rfl

/-- An element that is not a symbol ends the walk, whatever arguments there are. -/
theorem bindParams_element {found : Datum} (hfound : found.isSymbol = false) (locals : Table)
    (more args : Datum) :
    bindParams locals (.pair found more) args = .error (.notParameter found) := by
  cases found with
  | sym _ => cases hfound
  | pair _ _ | chr _ | stream => rfl

/-- At the end of the parameters the walk is over, if they end in `nil`. -/
theorem bindParams_terminator (params : Datum) (locals : Table) (args : Datum) :
    bindParams locals params.terminator args =
      Datum.endOfList params.terminator (locals, args) := by
  cases hend : params.terminator with
  | pair car cdr => exact absurd hend (params.terminator_ne_pair car cdr)
  | sym _ | chr _ | stream => rfl

/-- Parameters that are all symbols end the walk as their chain ends. -/
theorem bindParams_of_symbols {params : Datum} {names : List String}
    (hspine : params.spine = names.map .sym) (values : List Datum) (locals : Table) :
    bindParams locals params (.ofList values) =
      Datum.endOfList params.terminator
        (locals.defineAll (supply names values), .ofList (values.drop names.length)) := by
  have hparams := params.ofListTail_spine
  rw [hspine] at hparams
  calc bindParams locals params (.ofList values)
      = bindParams locals (.ofListTail (names.map .sym) params.terminator) (.ofList values) := by
        rw [hparams]
    _ = bindParams (locals.defineAll (supply names values)) params.terminator
          (.ofList (values.drop names.length)) := bindParams_symbols names _ values locals
    _ = _ := bindParams_terminator params _ _

/-! ## How binding ends -/

section Outcomes

variable {params args : Datum} {names : List String} {values : List Datum}

theorem bindArguments_of_error {fault : Fault}
    (h : bindParams .empty params args = .error fault) :
    bindArguments params args = .error fault := by
  rw [bindArguments, h]

theorem bindArguments_of_element {found : Datum} {more : List Datum}
    (hspine : params.spine = names.map .sym ++ found :: more) (hfound : found.isSymbol = false) :
    bindArguments params (.ofList values) = .error (.notParameter found) := by
  apply bindArguments_of_error
  rw [← params.ofListTail_spine, hspine, Datum.ofListTail_append, bindParams_symbols]
  exact bindParams_element hfound _ _ _

theorem bindArguments_of_tail (hspine : params.spine = names.map .sym)
    (htail : params.terminator ≠ .nil) :
    bindArguments params (.ofList values) = .error (.malformedList params.terminator) := by
  apply bindArguments_of_error
  rw [bindParams_of_symbols hspine]
  exact Datum.endOfList_eq_error_iff.2 ⟨htail, rfl⟩

theorem bindArguments_of_surplus (h : names.length < values.length) :
    bindArguments (.ofList (names.map .sym)) (.ofList values) =
      .error (.surplusArguments values.length names.length) := by
  have hleft : 0 < (values.drop names.length).length := by
    rw [List.length_drop]
    omega
  obtain ⟨value, more, hmore⟩ := List.exists_cons_of_length_pos hleft
  -- the walk leaves at least one argument behind the last parameter
  have hwalk : bindParams .empty (.ofList (names.map .sym)) (.ofList values) =
      .ok (Table.empty.defineAll (supply names values), .pair value (.ofList more)) := by
    rw [bindParams_of_symbols (Datum.spine_ofList _), Datum.terminator_ofList, hmore]
    rfl
  simp only [bindArguments, hwalk, Datum.length_ofList, List.length_map]

theorem bindArguments_of_length_le (h : values.length ≤ names.length) :
    bindArguments (.ofList (names.map .sym)) (.ofList values) =
      .ok (Table.empty.defineAll (supply names values)) := by
  have hwalk := bindParams_of_symbols (Datum.spine_ofList (names.map .sym)) values .empty
  rw [Datum.terminator_ofList, List.drop_eq_nil_of_le h] at hwalk
  rw [bindArguments, hwalk]
  rfl

/-- Arguments that do not end in `nil` are never bound. -/
theorem terminator_of_bindArguments {table : Table} (h : bindArguments params args = .ok table) :
    args.terminator = .nil := by
  rw [bindArguments] at h
  split at h
  · cases h
  · split at h <;> cases h
  · rename_i bound rest _ hwalk
    obtain ⟨rfl, -⟩ := Datum.endOfList_eq_ok_iff.1 h
    rw [← terminator_of_bindParams hwalk]
    rfl

/-- For a list of arguments the parameters refuse it or bind it. -/
theorem refuses_or_binds (params : Datum) (values : List Datum) :
    (∃ kind fault, Refuses params values.length kind fault ∧
      bindArguments params (.ofList values) = .error fault) ∨
    ∃ names, params = .ofList (names.map .sym) ∧ values.length ≤ names.length ∧
      bindArguments params (.ofList values) =
        .ok (Table.empty.defineAll (supply names values)) := by
  obtain ⟨names, hspine | ⟨found, more, hspine, hfound⟩⟩ :=
    Datum.exists_leading_symbols params.spine
  · -- all elements are symbols, so the end of the chain is reached
    by_cases htail : params.terminator = .nil
    · obtain rfl := Datum.eq_ofList_iff.2 ⟨hspine, htail⟩
      by_cases hgiven : names.length < values.length
      · exact .inl ⟨_, _, .surplus rfl hgiven, bindArguments_of_surplus hgiven⟩
      · have hle : values.length ≤ names.length := by omega
        exact .inr ⟨names, rfl, hle, bindArguments_of_length_le hle⟩
    · exact .inl ⟨_, _, .tail hspine htail, bindArguments_of_tail hspine htail⟩
  · -- the number of arguments does not matter here
    exact .inl ⟨_, _, .element hspine hfound, bindArguments_of_element hspine hfound⟩

theorem bindArguments_of_refuses {kind : FaultKind} {fault : Fault}
    (h : Refuses params values.length kind fault) :
    fault.kind = kind ∧ bindArguments params (.ofList values) = .error fault := by
  cases h with
  | element hspine hfound => exact ⟨rfl, bindArguments_of_element hspine hfound⟩
  | tail hspine htail => exact ⟨rfl, bindArguments_of_tail hspine htail⟩
  | surplus hparams hgiven =>
      subst hparams
      exact ⟨rfl, bindArguments_of_surplus hgiven⟩

/-- Bound are a list of symbols and a list of at most as many arguments, and only these. -/
theorem bindArguments_eq_ok_iff {table : Table} :
    bindArguments params args = .ok table ↔
      ∃ names values, params = .ofList (names.map .sym) ∧ args = .ofList values ∧
        values.length ≤ names.length ∧ Binds names values table := by
  constructor
  · intro h
    -- what is bound ends in `nil`, so the arguments are the list of their spine
    have hargs := Datum.eq_ofList_iff.2 ⟨rfl, terminator_of_bindArguments h⟩
    rw [hargs] at h
    rcases refuses_or_binds params args.spine with ⟨_, _, -, hfails⟩ | ⟨names, hparams, hle, hbinds⟩
    · rw [hfails] at h
      cases h
    · rw [hbinds] at h
      cases h
      exact ⟨names, args.spine, hparams, hargs, hle, binds_supply names args.spine⟩
  · rintro ⟨names, values, rfl, rfl, hle, hbinds⟩
    -- no other table binds the parameters in this way
    have hempty : Table.empty.names.Nodup := .nil
    have hnodup := Table.nodup_names_defineAll hempty (supply names values)
    rw [bindArguments_of_length_le hle, (binds_supply names values).unique hnodup hbinds]

/-- A list of arguments is refused for the reason that the parameters have to refuse it. -/
theorem bindArguments_eq_error_iff {fault : Fault} :
    bindArguments params (.ofList values) = .error fault ↔
      Refuses params values.length fault.kind fault := by
  constructor
  · intro h
    rcases refuses_or_binds params values with ⟨kind, fault', hrefuses, hfails⟩ | ⟨_, -, -, hbinds⟩
    · rw [hfails] at h
      cases h
      obtain ⟨rfl, -⟩ := bindArguments_of_refuses hrefuses
      exact hrefuses
    · rw [hbinds] at h
      cases h
  · intro h
    exact (bindArguments_of_refuses h).2

end Outcomes

/-- **Binding is exact.** Parameters and arguments are bound exactly if the parameters are a list of
symbols and the arguments a list of at most as many objects; the table has each parameter once, with
the argument at its last occurrence. A list of arguments that is refused is refused for what a scan
of the parameters from the left finds first, and for their number only if the scan finds nothing. -/
theorem bindArguments_exact (params : Datum) :
    (∀ args table, bindArguments params args = .ok table ↔
      ∃ names values, params = .ofList (names.map .sym) ∧ args = .ofList values ∧
        values.length ≤ names.length ∧ Binds names values table) ∧
    ∀ values fault, bindArguments params (.ofList values) = .error fault ↔
      Refuses params values.length fault.kind fault :=
  ⟨fun _ _ => bindArguments_eq_ok_iff, fun _ _ => bindArguments_eq_error_iff⟩

-- the second `x` has no argument, and takes the one of the first away
example : bindArguments (.ofList [.sym "x", .sym "y", .sym "x"]) (.ofList [.sym "a", .sym "b"]) =
    .ok ⟨[("x", .nil), ("y", .sym "b")]⟩ := rfl

end Closure

end BelLisp
