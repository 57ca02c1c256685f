import BelLisp.Datum.Outline
import BelLisp.Proofs.Lists

/-!
# Outlines line by line

An object has an outline exactly if all of its lists are proper: it is an atom, or a list of such
objects that ends in `nil` (`Datum.ProperThroughout`). The lines of the outline are then those of its
`leaves` in order, and a leaf is known by its address: the positions, from the outermost list
inwards, of the elements that lead to it.

What the leaves are is said without the walk that collects them. Every address that leads to an atom
is the address of a leaf, and no other is (`Datum.mem_leaves_iff`); the addresses increase in the
order of words (`Datum.pairwise_leaves`), which is the order from left to right and from the outside
in. Both hold for all objects. The main statement is `Datum.outline_exact`.
-/

set_option autoImplicit false

namespace BelLisp.Datum

/-! ## Objects whose lists are proper -/

/-- The object is an atom, or a list of such objects that ends in `nil`. -/
inductive ProperThroughout : Datum → Prop where
  | atom {d : Datum} (h : d.isPair = false) : ProperThroughout d
  | list {items : List Datum} (h : ∀ item ∈ items, ProperThroughout item) :
      ProperThroughout (ofList items)

theorem spine_of_not_isPair {d : Datum} (h : d.isPair = false) :
    d.spine = [] ∧ d.terminator = d := by
  apply spine_of_ne_pair
  rintro car cdr rfl
  cases h

/-- The two rules in one, read along the spine. -/
theorem properThroughout_iff {d : Datum} :
    d.ProperThroughout ↔
      (d.isPair = false ∨ d.terminator = nil) ∧ ∀ item ∈ d.spine, item.ProperThroughout := by
  constructor
  · intro h
    cases h with
    | atom h =>
        rw [(spine_of_not_isPair h).1]
        exact ⟨Or.inl h, by simp⟩
    | list h =>
        rw [terminator_ofList, spine_ofList]
        exact ⟨Or.inr rfl, h⟩
  · rintro ⟨hatom | hend, hitems⟩
    · exact .atom hatom
    · rw [eq_ofList_iff.2 ⟨rfl, hend⟩]
      exact .list hitems

theorem properThroughout_pair_iff {item rest : Datum} :
    (pair item rest).ProperThroughout ↔
      item.ProperThroughout ∧ rest.ProperThroughout ∧ rest.terminator = nil := by
  rw [properThroughout_iff, properThroughout_iff (d := rest)]
  simp only [isPair, terminator, spine, List.forall_mem_cons, Bool.true_eq_false, false_or]
  constructor
  · rintro ⟨hend, hitem, hitems⟩
    exact ⟨hitem, ⟨Or.inr hend, hitems⟩, hend⟩
  · rintro ⟨hitem, ⟨-, hitems⟩, hend⟩
    exact ⟨hend, hitem, hitems⟩

theorem ProperThroughout.terminator_eq_nil {d : Datum} (h : d.ProperThroughout)
    (hpair : d.isPair = true) : d.terminator = nil := by
  obtain ⟨hatom | hend, -⟩ := properThroughout_iff.1 h
  · rw [hpair] at hatom
    cases hatom
  · exact hend

theorem isPair_of_not_properThroughout {d : Datum} (h : ¬ d.ProperThroughout) :
    d.isPair = true := by
  apply Bool.of_not_eq_false
  intro hatom
  exact h (.atom hatom)

/-! ## Leaves -/

/-- The object that an address leads to: the positions of elements, from the outermost list
inwards. -/
def element? : Datum → List Nat → Option Datum
  | d, [] => some d
  | d, i :: address => d.spine[i]?.bind fun item => item.element? address

/-- The leaves of the elements along a chain, of which the first has the position `i`, each with its
address. -/
def leavesFrom (i : Nat) : Datum → List (List Nat × Datum)
  | .pair item rest =>
    let leaves := if item.isPair then leavesFrom 0 item else [([], item)]
    leaves.map (fun leaf => (i :: leaf.1, leaf.2)) ++ leavesFrom (i + 1) rest
  | _ => []

/-- The atoms of an object that stand as elements in its lists, from left to right, each with its
address. An atom is its only leaf. -/
def leaves (d : Datum) : List (List Nat × Datum) :=
  if d.isPair then leavesFrom 0 d else [([], d)]

theorem leavesFrom_pair (i : Nat) (item rest : Datum) :
    leavesFrom i (.pair item rest) =
      item.leaves.map (fun leaf => (i :: leaf.1, leaf.2)) ++ leavesFrom (i + 1) rest := rfl

theorem leaves_of_isPair {d : Datum} (h : d.isPair = true) : d.leaves = leavesFrom 0 d := by
  rw [leaves, if_pos h]

theorem leaves_of_not_isPair {d : Datum} (h : d.isPair = false) : d.leaves = [([], d)] := by
  rw [leaves, h]
  rfl

/-- The leaves along a chain are those of its elements, behind the positions of these. -/
theorem mem_leavesFrom_iff {i : Nat} {d atom : Datum} {address : List Nat} :
    (address, atom) ∈ leavesFrom i d ↔
      ∃ k item inner, d.spine[k]? = some item ∧ address = (i + k) :: inner ∧
        (inner, atom) ∈ item.leaves := by
  induction d generalizing i with
  | pair item rest _ ih =>
      rw [leavesFrom_pair, List.mem_append, ih]
      constructor
      · rintro (hfirst | ⟨k, other, inner, hother, rfl, hleaf⟩)
        · obtain ⟨leaf, hleaf, heq⟩ := List.mem_map.1 hfirst
          cases heq
          exact ⟨0, item, leaf.1, rfl, rfl, hleaf⟩
        · refine ⟨k + 1, other, inner, hother, ?_, hleaf⟩
          rw [Nat.add_right_comm, Nat.add_assoc]
      · rintro ⟨k, other, inner, hother, rfl, hleaf⟩
        cases k with
        | zero =>
            cases hother
            exact Or.inl (List.mem_map.2 ⟨(inner, atom), hleaf, rfl⟩)
        | succ k =>
            refine Or.inr ⟨k, other, inner, hother, ?_, hleaf⟩
            rw [Nat.add_right_comm, Nat.add_assoc]
  | sym _ | chr _ | stream => simp [leavesFrom, spine]

/-- The leaves of an object are the atoms that addresses lead to. -/
theorem mem_leaves_iff {d atom : Datum} {address : List Nat} :
    (address, atom) ∈ d.leaves ↔ d.element? address = some atom ∧ atom.isPair = false := by
  -- an address is followed from its first position, which chooses an element
  induction address generalizing d with
  | nil =>
      rw [element?, Option.some.injEq]
      cases hpair : d.isPair with
      | true =>
          rw [leaves_of_isPair hpair, mem_leavesFrom_iff]
          constructor
          · rintro ⟨k, item, inner, -, haddress, -⟩
            cases haddress
          · rintro ⟨rfl, hatom⟩
            rw [hpair] at hatom
            cases hatom
      | false =>
          rw [leaves_of_not_isPair hpair, List.mem_singleton, Prod.mk.injEq]
          constructor
          · rintro ⟨-, rfl⟩
            exact ⟨rfl, hpair⟩
          · rintro ⟨rfl, -⟩
            exact ⟨rfl, rfl⟩
  | cons i address ih =>
      rw [element?, Option.bind_eq_some_iff]
      cases hpair : d.isPair with
      | true =>
          rw [leaves_of_isPair hpair, mem_leavesFrom_iff]
          constructor
          · rintro ⟨k, item, inner, hitem, haddress, hleaf⟩
            rw [Nat.zero_add] at haddress
            cases haddress
            obtain ⟨helement, hatom⟩ := ih.1 hleaf
            exact ⟨⟨item, hitem, helement⟩, hatom⟩
          · rintro ⟨⟨item, hitem, helement⟩, hatom⟩
            refine ⟨i, item, address, hitem, ?_, ih.2 ⟨helement, hatom⟩⟩
            rw [Nat.zero_add]
      | false =>
          -- an atom has no elements
          rw [leaves_of_not_isPair hpair, (spine_of_not_isPair hpair).1]
          simp

theorem pairwise_leaves_of_from {d : Datum}
    (h : (leavesFrom 0 d).Pairwise fun leaf leaf' => leaf.1 < leaf'.1) :
    d.leaves.Pairwise fun leaf leaf' => leaf.1 < leaf'.1 := by
  cases hpair : d.isPair with
  | true =>
      rw [leaves_of_isPair hpair]
      exact h
  | false =>
      rw [leaves_of_not_isPair hpair]
      exact List.pairwise_singleton _ _

/-- The addresses of leaves increase along a chain. -/
theorem pairwise_leavesFrom (i : Nat) (d : Datum) :
    (leavesFrom i d).Pairwise fun leaf leaf' => leaf.1 < leaf'.1 := by
  induction d generalizing i with
  | pair item rest ihItem ihRest =>
      rw [leavesFrom_pair, List.pairwise_append]
      refine ⟨?_, ihRest (i + 1), ?_⟩
      · rw [List.pairwise_map]
        apply (pairwise_leaves_of_from (ihItem 0)).imp
        intro leaf leaf' hlt
        exact List.cons_lt_cons_iff.2 (Or.inr ⟨rfl, hlt⟩)
      · -- the leaves of later elements have a greater first position
        intro leaf hleaf leaf' hleaf'
        obtain ⟨inner, -, rfl⟩ := List.mem_map.1 hleaf
        obtain ⟨k, other, inner', -, haddress, -⟩ := mem_leavesFrom_iff.1 hleaf'
        rw [haddress]
        exact List.cons_lt_cons_iff.2 (Or.inl (by omega))
  | sym _ | chr _ | stream => exact List.Pairwise.nil

theorem pairwise_leaves (d : Datum) : d.leaves.Pairwise fun leaf leaf' => leaf.1 < leaf'.1 :=
  pairwise_leaves_of_from (pairwise_leavesFrom 0 d)

/-! ## Lines -/

section Lines

variable {style : OutlineStyle}

/-- The lines of the elements of a proper list are those of its leaves. A leaf stands in one list
less than its address has positions, counted from the level of the list. -/
theorem outlineItems_of_properThroughout {d : Datum} (h : d.ProperThroughout)
    (hend : d.terminator = nil) (level i : Nat) :
    outlineItems style level d = .ok (String.join ((leavesFrom i d).map fun leaf =>
      outlineLine style (level + leaf.1.length - 1) leaf.2)) := by
  induction d generalizing level i with
  | pair item rest ihItem ihRest =>
      obtain ⟨hitem, hrest, hend'⟩ := properThroughout_pair_iff.1 h
      have hfirst : (if item.isPair then outlineItems style (level + 1) item
            else .ok (outlineLine style level item)) =
          .ok (String.join ((item.leaves.map fun leaf => (i :: leaf.1, leaf.2)).map fun leaf =>
            outlineLine style (level + leaf.1.length - 1) leaf.2)) := by
        cases hpair : item.isPair with
        | true =>
            rw [if_pos rfl, ihItem hitem (hitem.terminator_eq_nil hpair) (level + 1) 0,
              leaves_of_isPair hpair, List.map_map]
            -- one position more in front is one level more
            simp [Function.comp_def, Nat.add_right_comm]
        | false =>
            rw [leaves_of_not_isPair hpair]
            simp
      rw [outlineItems, leavesFrom_pair, List.map_append, String.join_append]
      simp only [hfirst, ihRest hrest hend' level (i + 1)]
  | sym _ | chr _ | stream =>
      exact endOfList_eq_ok_iff.2 ⟨hend, rfl⟩

/-- Along a chain that is improper, or has an improper list in it, the lines end at a place that is
neither a pair nor `nil`. -/
theorem outlineItems_of_not_properThroughout {d : Datum}
    (h : ¬ (d.ProperThroughout ∧ d.terminator = nil)) (level : Nat) :
    ∃ rest, outlineItems style level d = .error (.malformedList rest) := by
  induction d generalizing level with
  | pair item rest ihItem ihRest =>
      rw [properThroughout_pair_iff] at h
      by_cases hitem : item.ProperThroughout
      · -- the element has its lines, so it is the rest that fails
        have hfirst : ∃ lines, (if item.isPair then outlineItems style (level + 1) item
            else .ok (outlineLine style level item)) = .ok lines := by
          cases hpair : item.isPair with
          | true =>
              exact ⟨_, outlineItems_of_properThroughout hitem (hitem.terminator_eq_nil hpair)
                (level + 1) 0⟩
          | false => exact ⟨_, rfl⟩
        obtain ⟨lines, hlines⟩ := hfirst
        obtain ⟨place, hplace⟩ := ihRest (fun hrest => h ⟨⟨hitem, hrest⟩, hrest.2⟩) level
        refine ⟨place, ?_⟩
        simp only [outlineItems, hlines, hplace]
      · have hpair := isPair_of_not_properThroughout hitem
        obtain ⟨place, hplace⟩ := ihItem (fun hproper => hitem hproper.1) (level + 1)
        refine ⟨place, ?_⟩
        simp only [outlineItems, hpair, if_pos, hplace]
  | sym _ | chr _ | stream =>
      exact ⟨_, endOfList_eq_error_iff.2 ⟨fun hnil => h ⟨.atom rfl, hnil⟩, rfl⟩⟩

/-- The outline of an object whose lists are proper has the lines of its leaves. -/
theorem outline_of_properThroughout {d : Datum} (h : d.ProperThroughout) :
    d.outline style = .ok (String.join (d.leaves.map fun leaf =>
      outlineLine style (leaf.1.length - 1) leaf.2)) := by
  rw [outline]
  cases hpair : d.isPair with
  | true =>
      rw [if_pos rfl, leaves_of_isPair hpair,
        outlineItems_of_properThroughout h (h.terminator_eq_nil hpair) 0 0]
      simp only [Nat.zero_add]
  | false =>
      rw [leaves_of_not_isPair hpair]
      simp [outlineLine]

/-- An object with an improper list has no outline. -/
theorem outline_of_not_properThroughout {d : Datum} (h : ¬ d.ProperThroughout) :
    ∃ rest, d.outline style = .error (.malformedList rest) := by
  rw [outline, if_pos (isPair_of_not_properThroughout h)]
  exact outlineItems_of_not_properThroughout (fun hproper => h hproper.1) 0

end Lines

theorem label_of_colorless (indent : Int) (d : Datum) : d.label ⟨indent, false, false⟩ = d.text := by
  cases d <;> rfl

/-- **Outlines are exact.** Without colours, and for every indentation, an object has no outline
exactly if it has an improper list, and then the fault is that of a malformed list. Otherwise its
outline has one line for each leaf in order: the spaces of its level, of which there are none if
their number would be negative, the text of the leaf, and a newline. The leaves are all atoms that
an address leads to, and no other objects, in the order of their addresses; so none is lost, comes
twice or is out of place. -/
theorem outline_exact (indent : Int) (d : Datum) :
    let result := d.outline ⟨indent, false, false⟩
    ((∃ rest, result = .error (.malformedList rest)) ↔ ¬ d.ProperThroughout) ∧
    (d.ProperThroughout → result = .ok (String.join (d.leaves.map fun leaf =>
      String.ofList (List.replicate (indent * (leaf.1.length - 1 : Nat)).toNat ' ') ++
        leaf.2.text ++ "\n"))) ∧
    (d.leaves.Pairwise fun leaf leaf' => leaf.1 < leaf'.1) ∧
    ∀ address atom, (address, atom) ∈ d.leaves ↔
      d.element? address = some atom ∧ atom.isPair = false := by
  intro result
  have hproper : d.ProperThroughout → result = .ok (String.join (d.leaves.map fun leaf =>
      String.ofList (List.replicate (indent * (leaf.1.length - 1 : Nat)).toNat ' ') ++
        leaf.2.text ++ "\n")) := by
    intro h
    have hlines : result = .ok _ := outline_of_properThroughout h
    simp only [outlineLine, label_of_colorless, Int.mul_comm _ indent] at hlines
    exact hlines
  refine ⟨⟨?_, fun h => outline_of_not_properThroughout h⟩, hproper, pairwise_leaves d, ?_⟩
  · rintro ⟨rest, hrest⟩ h
    rw [hproper h] at hrest
    cases hrest
  · intro address atom
    exact mem_leaves_iff

end BelLisp.Datum
