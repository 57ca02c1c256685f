import BelLisp.Context

/-!
# Bindings and registered names

What the operations of tables and contexts do, said through look-ups and membership. Binding a name
changes the answer for that name only (`Table.get?_define`) and keeps the names in their order, with
a new name at the end (`Table.names_define`). Of several bindings of a name the last decides its
value (`Table.get?_defineAll`) and the first its place (`Table.names_defineAll`). Registering a name
puts it into one of the two sets of names and takes it out of the other.
-/

set_option autoImplicit false

namespace BelLisp

/-! ## Tables -/

namespace Table

theorem lookup_cons_eq_ite (key other : String) (value : Datum) (entries : List (String × Datum)) :
    ((key, value) :: entries).lookup other =
      if other = key then some value else entries.lookup other := by
  by_cases h : other = key
  · simp [h]
  · have hne : (other == key) = false := by simpa using h
    rw [List.lookup_cons, hne, if_neg h]

theorem lookup_bindIn (name other : String) (value : Datum) (entries : List (String × Datum)) :
    (bindIn name value entries).lookup other =
      if other = name then some value else entries.lookup other := by
  induction entries with
  | nil => exact lookup_cons_eq_ite name other value []
  | cons entry entries ih =>
      rcases entry with ⟨key, found⟩
      by_cases hkey : key = name
      · -- the name is bound again in its place
        subst hkey
        simp only [bindIn, if_pos, lookup_cons_eq_ite]
        split <;> rfl
      · simp only [bindIn, if_neg hkey, lookup_cons_eq_ite, ih]
        by_cases h : other = key
        · subst h
          simp [hkey]
        · simp only [if_neg h]

/-- Binding a name changes the answer for that name only. -/
theorem get?_define (table : Table) (name other : String) (value : Datum) :
    (table.define name value).get? other = if other = name then some value else table.get? other :=
  lookup_bindIn name other value table.entries

/-- A value is found in one of the entries. -/
theorem mem_entries_of_get? {table : Table} {name : String} {value : Datum}
    (h : table.get? name = some value) : (name, value) ∈ table.entries := by
  obtain ⟨before, after, hentries, -⟩ := List.lookup_eq_some_iff.1 h
  rw [hentries]
  simp

theorem map_fst_bindIn (name : String) (value : Datum) (entries : List (String × Datum)) :
    (bindIn name value entries).map Prod.fst =
      if name ∈ entries.map Prod.fst then entries.map Prod.fst
      else entries.map Prod.fst ++ [name] := by
  induction entries with
  | nil => simp [bindIn]
  | cons entry entries ih =>
      rcases entry with ⟨key, found⟩
      by_cases hkey : key = name
      · simp [bindIn, hkey]
      · have hne : name ≠ key := fun h => hkey h.symm
        simp only [bindIn, if_neg hkey, List.map_cons, ih, List.mem_cons, hne, false_or]
        split <;> simp

/-- Binding a name keeps the names in their order; a new name goes to the end. -/
theorem names_define (table : Table) (name : String) (value : Datum) :
    (table.define name value).names =
      if name ∈ table.names then table.names else table.names ++ [name] :=
  map_fst_bindIn name value table.entries

theorem mem_names_define {table : Table} {name other : String} {value : Datum} :
    other ∈ (table.define name value).names ↔ other = name ∨ other ∈ table.names := by
  rw [names_define]
  split
  · rename_i hname
    constructor
    · exact Or.inr
    · rintro (rfl | hother)
      · exact hname
      · exact hother
  · rw [List.mem_append, List.mem_singleton]
    exact or_comm

theorem names_prefix_define (table : Table) (name : String) (value : Datum) :
    table.names <+: (table.define name value).names := by
  rw [names_define]
  split
  · exact List.prefix_refl _
  · exact List.prefix_append _ _

theorem contains_iff_mem_names (table : Table) (name : String) :
    table.contains name = true ↔ name ∈ table.names := by
  simp only [contains, get?, names, List.lookup_isSome_iff, List.mem_map, beq_iff_eq]
  constructor
  · rintro ⟨entry, hmem, rfl⟩
    exact ⟨entry, hmem, rfl⟩
  · rintro ⟨entry, hmem, rfl⟩
    exact ⟨entry, hmem, rfl⟩

theorem nodup_names_define {table : Table} (h : table.names.Nodup) (name : String)
    (value : Datum) : (table.define name value).names.Nodup := by
  rw [names_define]
  split
  · exact h
  · rename_i hname
    rw [List.nodup_append]
    refine ⟨h, by simp, ?_⟩
    rintro other hother _ hmem rfl
    rw [List.mem_singleton] at hmem
    exact hname (hmem ▸ hother)

/-- Tables without repeated names that have the same names in the same order and give the same
answers are the same. -/
theorem eq_of_get? {table other : Table} (hnodup : table.names.Nodup)
    (hnames : other.names = table.names)
    (hget : ∀ name ∈ table.names, other.get? name = table.get? name) : other = table := by
  rcases table with ⟨entries⟩
  rcases other with ⟨entries'⟩
  simp only [names, get?, mk.injEq] at hnodup hnames hget ⊢
  induction entries generalizing entries' with
  | nil => exact List.map_eq_nil_iff.1 hnames
  | cons entry entries ih =>
      rcases entry with ⟨key, value⟩
      cases entries' with
      | nil => simp at hnames
      | cons entry' entries' =>
          rcases entry' with ⟨key', value'⟩
          simp only [List.map_cons, List.cons.injEq, List.nodup_cons] at hnames hnodup
          obtain ⟨rfl, hnames⟩ := hnames
          have hvalue := hget key' List.mem_cons_self
          simp only [lookup_cons_eq_ite, if_pos] at hvalue
          -- no later entry has the key of the first, so the later answers do not depend on it
          have hmore : ∀ name ∈ entries.map Prod.fst,
              entries'.lookup name = entries.lookup name := by
            intro name hname
            have hne : name ≠ key' := fun heq => hnodup.1 (heq ▸ hname)
            have hlater := hget name (List.mem_cons_of_mem _ hname)
            simpa only [lookup_cons_eq_ite, if_neg hne] using hlater
          rw [Option.some.inj hvalue, ih hnodup.2 entries' hnames hmore]

/-! ### Several bindings in order -/

/-- The table with several names bound, one after another. -/
def defineAll (table : Table) (bindings : List (String × Datum)) : Table :=
  bindings.foldl (fun bound entry => bound.define entry.1 entry.2) table

/-- The last binding of a name decides; a name without one has the answer it had. -/
theorem get?_defineAll (table : Table) (bindings : List (String × Datum)) (name : String) :
    (table.defineAll bindings).get? name =
      (bindings.reverse.lookup name).or (table.get? name) := by
  induction bindings generalizing table with
  | nil => rfl
  | cons entry bindings ih =>
      rcases entry with ⟨key, value⟩
      show ((table.define key value).defineAll bindings).get? name = _
      rw [ih, get?_define, List.reverse_cons, List.lookup_append, Option.or_assoc,
        lookup_cons_eq_ite]
      by_cases h : name = key <;> simp [h]

/-- The names that were bound come first; behind them stand the new ones, in the order in which
each is bound for the first time. -/
theorem names_defineAll (table : Table) (bindings : List (String × Datum)) :
    (table.defineAll bindings).names =
      table.names ++ ((bindings.map Prod.fst).removeAll table.names).eraseDups := by
  induction bindings generalizing table with
  | nil => simp [defineAll, List.removeAll]
  | cons entry bindings ih =>
      rcases entry with ⟨key, value⟩
      show ((table.define key value).defineAll bindings).names = _
      rw [ih, names_define, List.map_cons]
      by_cases h : key ∈ table.names
      · rw [if_pos h]
        simp [List.removeAll, h]
      · have hnew : (key :: bindings.map Prod.fst).removeAll table.names =
            key :: (bindings.map Prod.fst).removeAll table.names := by
          simp [List.removeAll, h]
        -- a new name is put at the end, and is not new any more in what is still to come
        have hmore : (bindings.map Prod.fst).removeAll (table.names ++ [key]) =
            ((bindings.map Prod.fst).removeAll table.names).filter (!· == key) := by
          simp only [List.removeAll, List.filter_filter]
          congr 1
          funext other
          by_cases hother : other = key <;> simp [hother]
        rw [if_neg h, hnew, hmore, List.eraseDups_cons, List.append_assoc, List.singleton_append]

theorem nodup_names_defineAll {table : Table} (h : table.names.Nodup)
    (bindings : List (String × Datum)) : (table.defineAll bindings).names.Nodup := by
  induction bindings generalizing table with
  | nil => exact h
  | cons entry bindings ih => exact ih (nodup_names_define h entry.1 entry.2)

/-- What is found in bindings from the end is the value at the last place of the name. -/
theorem lookup_reverse_of_last {bindings : List (String × Datum)} {i : Nat} {name : String}
    {value : Datum} (h : bindings[i]? = some (name, value))
    (hlast : name ∉ (bindings.drop (i + 1)).map Prod.fst) :
    bindings.reverse.lookup name = some value := by
  induction bindings generalizing i with
  | nil => simp at h
  | cons entry bindings ih =>
      rw [List.reverse_cons, List.lookup_append]
      cases i with
      | zero =>
          cases h
          have hnone : bindings.reverse.lookup name = none := by
            rw [List.lookup_eq_none_iff]
            intro other hother
            rw [bne_iff_ne]
            rintro rfl
            exact hlast (List.mem_map_of_mem (List.mem_reverse.1 hother))
          rw [hnone, Option.none_or, lookup_cons_eq_ite, if_pos rfl]
      | succ i => rw [ih h hlast, Option.some_or]

end Table

/-! ## Sets of names -/

@[simp] theorem mem_insertName {name other : String} {names : List String} :
    other ∈ insertName name names ↔ other = name ∨ other ∈ names := by
  rw [insertName]
  split
  · rename_i hmem
    constructor
    · exact Or.inr
    · rintro (rfl | h)
      · exact hmem
      · exact h
  · exact List.mem_cons

@[simp] theorem mem_removeName {name other : String} {names : List String} :
    other ∈ removeName name names ↔ other ≠ name ∧ other ∈ names := by
  simp [removeName, and_comm]

/-! ## Contexts -/

/-- Only the name `set` stands for assignments. -/
theorem SpecialForm.eq_set_of_ofName? {name : String} (h : SpecialForm.ofName? name = some .set) :
    name = "set" := by
  rw [ofName?] at h
  split at h
  · assumption
  · repeat' split at h
    all_goals cases h

namespace Context

/-- The name is registered as a function or as a macro. -/
def IsRegistered (ctx : Context) (name : String) : Prop :=
  name ∈ ctx.functions ∨ name ∈ ctx.macros

theorem isRegistered_registerFunction {ctx : Context} {name other : String} :
    (ctx.registerFunction name).IsRegistered other ↔ other = name ∨ ctx.IsRegistered other := by
  by_cases h : other = name <;> simp [IsRegistered, registerFunction, h]

theorem isRegistered_registerExpander {ctx : Context} {name other : String} :
    (ctx.registerExpander name).IsRegistered other ↔ other = name ∨ ctx.IsRegistered other := by
  by_cases h : other = name <;> simp [IsRegistered, registerExpander, h]

/-- What a name stands for, with the reason for it. -/
theorem resolve_cases (ctx : Context) (name : String) :
    (∃ form, ctx.resolve name = .special form ∧ SpecialForm.ofName? name = some form) ∨
    (∃ primitive, ctx.resolve name = .primitive primitive ∧
      ctx.primitives.get? name = some primitive) ∨
    (ctx.resolve name = .function ∧ name ∈ ctx.functions) ∨
    (ctx.resolve name = .expander ∧ name ∈ ctx.macros) ∨
    (ctx.resolve name = .unrecognized ∧ ¬ ctx.IsRegistered name) := by
  rw [resolve]
  split
  · rename_i form hform
    exact .inl ⟨form, rfl, hform⟩
  · split
    · rename_i primitive hprimitive
      exact .inr (.inl ⟨primitive, rfl, hprimitive⟩)
    · by_cases hfunction : name ∈ ctx.functions
      · rw [if_pos hfunction]
        exact .inr (.inr (.inl ⟨rfl, hfunction⟩))
      · by_cases hmacro : name ∈ ctx.macros
        · rw [if_neg hfunction, if_pos hmacro]
          exact .inr (.inr (.inr (.inl ⟨rfl, hmacro⟩)))
        · rw [if_neg hfunction, if_neg hmacro]
          exact .inr (.inr (.inr (.inr ⟨rfl, fun h => h.elim hfunction hmacro⟩)))

variable {ctx : Context} {name : String}

/-- What stands for a special form is the name of it. -/
theorem ofName?_of_resolve {form : SpecialForm} (h : ctx.resolve name = .special form) :
    SpecialForm.ofName? name = some form := by
  rcases resolve_cases ctx name with
    ⟨found, hr, hfound⟩ | ⟨_, hr, -⟩ | ⟨hr, -⟩ | ⟨hr, -⟩ | ⟨hr, -⟩
  case inl =>
    rw [hr] at h
    cases h
    exact hfound
  all_goals
    rw [hr] at h
    cases h

/-- Only registered names stand for functions. -/
theorem mem_functions_of_resolve (h : ctx.resolve name = .function) : name ∈ ctx.functions := by
  rcases resolve_cases ctx name with
    ⟨_, hr, -⟩ | ⟨_, hr, -⟩ | ⟨-, hfunction⟩ | ⟨hr, -⟩ | ⟨hr, -⟩
  case inr.inr.inl => exact hfunction
  all_goals
    rw [hr] at h
    cases h

/-- Only registered names stand for macros. -/
theorem mem_macros_of_resolve (h : ctx.resolve name = .expander) : name ∈ ctx.macros := by
  rcases resolve_cases ctx name with
    ⟨_, hr, -⟩ | ⟨_, hr, -⟩ | ⟨hr, -⟩ | ⟨-, hmacro⟩ | ⟨hr, -⟩
  case inr.inr.inr.inl => exact hmacro
  all_goals
    rw [hr] at h
    cases h

/-- What stands for a primitive is found among the primitives. -/
theorem get?_of_resolve {primitive : Primitive} (h : ctx.resolve name = .primitive primitive) :
    ctx.primitives.get? name = some primitive := by
  rcases resolve_cases ctx name with
    ⟨_, hr, -⟩ | ⟨found, hr, hfound⟩ | ⟨hr, -⟩ | ⟨hr, -⟩ | ⟨hr, -⟩
  case inr.inl =>
    rw [hr] at h
    cases h
    exact hfound
  all_goals
    rw [hr] at h
    cases h

variable {locals : Table}

/-- A symbol has a value if the locals or, behind them, the globals have one for it. -/
theorem lookup_eq_ok_iff {value : Datum} :
    ctx.lookup locals name = .ok value ↔
      locals.get? name = some value ∨
        (locals.get? name = none ∧ ctx.globals.get? name = some value) := by
  rw [lookup, Table.lookup]
  cases hlocal : locals.get? name with
  | some found => simp
  | none =>
      cases hglobal : ctx.globals.get? name with
      | some found => simp
      | none => simp

theorem lookup_eq_error_iff {fault : Fault} :
    ctx.lookup locals name = .error fault ↔
      locals.get? name = none ∧ ctx.globals.get? name = none ∧ fault = .unboundSymbol name := by
  rw [lookup, Table.lookup]
  cases hlocal : locals.get? name with
  | some found => simp
  | none =>
      cases hglobal : ctx.globals.get? name with
      | some found => simp
      | none => simp [eq_comm]

end Context

end BelLisp
