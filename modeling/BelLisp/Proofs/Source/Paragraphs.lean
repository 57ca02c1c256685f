import BelLisp.Source.Block
import Mathlib.Data.List.Basic
import Mathlib.Data.List.DropRight

/-!
# Blocks are paragraphs

The blocks of a file are collected line by line, with the lines of the open block at hand. What
comes of it can be said without that: drop the line ends and the lines that start with a semicolon,
and take the paragraphs of what is left, the maximal runs of lines that are not blank
(`paragraphs`). Each block is the text of one paragraph, in order (`blocks_eq_map_paragraphs`).

Cutting at gaps has one law from which the others follow: a gap parts what is before it from what is
behind it (`runs_append_cons`). With the law for items without any gap (`runs_of_forall`) it makes
an induction (`gap_induction`), in which the items up to the next gap are taken at once.

Lines may be alike, so which lines share a paragraph is said of their places (`paragraphPlaces`).
-/

set_option autoImplicit false

namespace BelLisp.Source

/-! ## Runs between gaps -/

section Runs

variable {α β : Type} {gap : α → Bool}

/-- The maximal runs of items that are no gaps, in order. -/
def runs (gap : α → Bool) (items : List α) : List (List α) :=
  (items.splitOnP gap).filter fun run => !run.isEmpty

/-- A gap parts the runs before it from those behind it. -/
theorem runs_append_cons {a : α} (h : gap a = true) (items more : List α) :
    runs gap (items ++ a :: more) = runs gap items ++ runs gap more := by
  rw [runs, List.splitOnP_append_cons items more h, List.filter_append]
  rfl

/-- Items without a gap are one run, if there are any. -/
theorem runs_of_forall {items : List α} (h : ∀ a ∈ items, gap a = false) :
    runs gap items = if items.isEmpty then [] else [items] := by
  rw [runs, List.splitOnP_eq_singleton h]
  cases items <;> rfl

theorem nil_not_mem_runs (gap : α → Bool) (items : List α) : [] ∉ runs gap items := by
  intro hmem
  have hempty := (List.mem_filter.1 hmem).2
  cases hempty

/-- What holds of items without a gap, and passes over one run and the gap behind it, holds of all
items. -/
theorem gap_induction (gap : α → Bool) {motive : List α → Prop}
    (hrun : ∀ run, (∀ a ∈ run, gap a = false) → motive run)
    (hgap : ∀ run a rest, (∀ b ∈ run, gap b = false) → gap a = true → motive rest →
      motive (run ++ a :: rest)) (items : List α) : motive items := by
  -- over the items, with those of the run that has been entered
  have hentered : ∀ run, (∀ a ∈ run, gap a = false) → motive (run ++ items) := by
    induction items with
    | nil =>
        intro run hfree
        rw [List.append_nil]
        exact hrun run hfree
    | cons a rest ih =>
        intro run hfree
        cases ha : gap a with
        | true => exact hgap run a rest hfree ha (ih [] (by simp))
        | false =>
            have hmore : ∀ b ∈ run ++ [a], gap b = false := by
              intro b hb
              rcases List.mem_append.1 hb with hb | hb
              · exact hfree b hb
              · rw [List.mem_singleton.1 hb]
                exact ha
            have hnext := ih (run ++ [a]) hmore
            rwa [List.append_assoc] at hnext
  exact hentered [] (by simp)

/-- Nothing but the gaps is lost, and nothing changes its place. -/
theorem flatten_runs (gap : α → Bool) (items : List α) :
    (runs gap items).flatten = items.filter fun a => !gap a := by
  have hone : ∀ run : List α, (∀ a ∈ run, gap a = false) →
      (runs gap run).flatten = run.filter fun a => !gap a := by
    intro run hfree
    have hall : run.filter (fun a => !gap a) = run :=
      List.filter_eq_self.2 fun a ha => by rw [hfree a ha]; rfl
    rw [runs_of_forall hfree, hall]
    cases run <;> simp
  induction items using gap_induction gap with
  | hrun run hfree => exact hone run hfree
  | hgap run a rest hfree ha ih =>
      rw [runs_append_cons ha, List.flatten_append, hone run hfree, ih, List.filter_append,
        List.filter_cons_of_neg (by simp [ha])]

/-- Items may be renamed before they are cut or afterwards. -/
theorem map_runs (gap : β → Bool) (f : α → β) (items : List α) :
    (runs (gap ∘ f) items).map (List.map f) = runs gap (items.map f) := by
  have hone : ∀ run : List α, (∀ a ∈ run, (gap ∘ f) a = false) →
      (runs (gap ∘ f) run).map (List.map f) = runs gap (run.map f) := by
    intro run hfree
    have hmap : ∀ b ∈ run.map f, gap b = false := by
      intro b hb
      obtain ⟨a, ha, rfl⟩ := List.mem_map.1 hb
      exact hfree a ha
    rw [runs_of_forall hfree, runs_of_forall hmap]
    cases run <;> rfl
  induction items using gap_induction (gap ∘ f) with
  | hrun run hfree => exact hone run hfree
  | hgap run a rest hfree ha ih =>
      have hfa : gap (f a) = true := ha
      rw [runs_append_cons ha, List.map_append, hone run hfree, ih, List.map_append, List.map_cons,
        runs_append_cons hfa]

theorem mem_of_mem_runs {items part : List α} {a : α} (hpart : part ∈ runs gap items)
    (ha : a ∈ part) : a ∈ items := by
  have hmem : a ∈ (runs gap items).flatten := List.mem_flatten.2 ⟨part, hpart, ha⟩
  rw [flatten_runs] at hmem
  exact (List.mem_filter.1 hmem).1

end Runs

/-- On which side of one of them the others are, of numbers in increasing order. -/
theorem mem_sides_iff {run rest : List Nat} {a b : Nat} (h : (run ++ a :: rest).Pairwise (· < ·))
    (hb : b ∈ run ++ a :: rest) : (b ∈ run ↔ b < a) ∧ (b ∈ rest ↔ a < b) := by
  obtain ⟨-, hbehind, hacross⟩ := List.pairwise_append.1 h
  have hafter := (List.pairwise_cons.1 hbehind).1
  have hbefore : ∀ c ∈ run, c < a := fun c hc => hacross c hc a List.mem_cons_self
  refine ⟨⟨hbefore b, fun hlt => ?_⟩, ⟨hafter b, fun hlt => ?_⟩⟩
  · rcases List.mem_append.1 hb with hrun | hcons
    · exact hrun
    · rcases List.mem_cons.1 hcons with rfl | hrest
      · omega
      · have := hafter b hrest
        omega
  · rcases List.mem_append.1 hb with hrun | hcons
    · have := hbefore b hrun
      omega
    · rcases List.mem_cons.1 hcons with rfl | hrest
      · omega
      · exact hrest

/-- Of numbers in increasing order, two are in one run exactly if no gap is between them. -/
theorem exists_mem_runs_iff {gap : Nat → Bool} {items : List Nat} (h : items.Pairwise (· < ·))
    {i j : Nat} (hi : i ∈ items) (hj : j ∈ items) (hfirst : gap i = false) (hsecond : gap j = false)
    (hlt : i < j) :
    (∃ part ∈ runs gap items, i ∈ part ∧ j ∈ part) ↔
      ∀ k ∈ items, i < k → k < j → gap k = false := by
  have hone : ∀ run, (∀ a ∈ run, gap a = false) → i ∈ run → runs gap run = [run] := by
    intro run hfree hmem
    rw [runs_of_forall hfree, if_neg (by simpa using List.ne_nil_of_mem hmem)]
  induction items using gap_induction gap with
  | hrun run hfree =>
      rw [hone run hfree hi]
      exact ⟨fun _ k hk _ _ => hfree k hk, fun _ => ⟨run, List.mem_singleton_self run, hi, hj⟩⟩
  | hgap run a rest hfree ha ih =>
      obtain ⟨hirun, hirest⟩ := mem_sides_iff h hi
      obtain ⟨hjrun, hjrest⟩ := mem_sides_iff h hj
      have hne : i ≠ a ∧ j ≠ a := by
        constructor <;> rintro rfl <;> simp_all
      rw [runs_append_cons ha]
      by_cases hend : j < a
      · -- both stand in the first run
        have hmem := hirun.2 (by omega)
        rw [hone run hfree hmem]
        refine ⟨fun _ k hk _ hkj => hfree k ((mem_sides_iff h hk).1.2 (by omega)), fun _ => ?_⟩
        exact ⟨run, List.mem_cons_self, hmem, hjrun.2 hend⟩
      · by_cases hstart : i < a
        · -- the gap itself stands between them
          have haj : a < j := by omega
          constructor
          · rintro ⟨part, hpart, hipart, hjpart⟩
            rcases List.mem_append.1 hpart with hpart | hpart
            · have := hjrun.1 (mem_of_mem_runs hpart hjpart)
              omega
            · have := hirest.1 (mem_of_mem_runs hpart hipart)
              omega
          · intro hbetween
            have := hbetween a (List.mem_append_right _ List.mem_cons_self) hstart haj
            rw [ha] at this
            cases this
        · -- both stand behind the gap, and so does all that is between them
          have hsorted := (List.pairwise_cons.1 (List.pairwise_append.1 h).2.1).2
          have hrest := ih hsorted (hirest.2 (by omega)) (hjrest.2 (by omega))
          constructor
          · rintro ⟨part, hpart, hipart, hjpart⟩ k hk hik hkj
            rcases List.mem_append.1 hpart with hpart | hpart
            · have := hirun.1 (mem_of_mem_runs hpart hipart)
              omega
            · exact hrest.1 ⟨part, hpart, hipart, hjpart⟩ k ((mem_sides_iff h hk).2.2 (by omega))
                hik hkj
          · intro hbetween
            obtain ⟨part, hpart, hmem⟩ := hrest.2 fun k hk =>
              hbetween k (List.mem_append_right _ (List.mem_cons_of_mem a hk))
            exact ⟨part, List.mem_append_right _ hpart, hmem⟩

/-! ## Blocks of lines -/

theorem blockText_eq_intercalate {lines : List (List Char)} (h : lines ≠ []) :
    blockText lines = ['\n'].intercalate lines ++ ['\n'] := by
  induction lines with
  | nil => exact absurd rfl h
  | cons line lines ih =>
      cases lines with
      | nil => simp [blockText]
      | cons next lines =>
          rw [List.intercalate_cons_cons, List.append_assoc, ← ih (List.cons_ne_nil next lines)]
          rfl

/-- The block of the lines that are open at the end of the file, if there are any. -/
def lastBlock (pending : List (List Char)) : List (List Char) :=
  if pending.isEmpty then [] else [blockText pending]

/-- Blocks are collected run by run. The lines of the open block have no gap between them, so they
start the next run. -/
theorem gather_eq_runs {pending : List (List Char)} (h : ∀ line ∈ pending, isGap line = false)
    (lines : List (List Char)) :
    (gather pending lines).1 ++ lastBlock (gather pending lines).2 =
      (runs isGap (pending ++ lines.filter fun line => !isRemark line)).map blockText := by
  fun_induction gather pending lines with
  | case1 pending =>
      rw [List.filter_nil, List.append_nil, List.nil_append, lastBlock, runs_of_forall h]
      cases pending <;> rfl
  | case2 pending line lines hremark ih =>
      rw [List.filter_cons_of_neg (by simp [hremark])]
      exact ih h
  | case3 pending line lines hremark hgap hempty ih =>
      obtain rfl := List.isEmpty_iff.1 hempty
      rw [List.filter_cons_of_pos (by simp [hremark]), runs_append_cons hgap]
      exact ih (by simp)
  | case4 pending line lines hremark hgap hempty closed last hgather ih =>
      -- the blank line closes the block of the pending lines, which are one run
      have hlines := ih (by simp)
      rw [hgather] at hlines
      rw [List.filter_cons_of_pos (by simp [hremark]), runs_append_cons hgap, runs_of_forall h,
        if_neg hempty, List.map_append, ← List.nil_append (List.filter _ lines), ← hlines]
      rfl
  | case5 pending line lines hremark hgap ih =>
      have hmore : ∀ kept ∈ pending ++ [line], isGap kept = false := by
        intro kept hkept
        rcases List.mem_append.1 hkept with hkept | hkept
        · exact h kept hkept
        · rw [List.mem_singleton.1 hkept]
          simpa using hgap
      rw [ih hmore, List.filter_cons_of_pos (by simp [hremark]), List.append_assoc]
      rfl

/-- The blocks are the texts of the runs of lines that are neither dropped nor blank. -/
theorem blocks_eq_map_runs (lines : List (List Char)) :
    blocks lines =
      (runs isGap ((bodies lines).filter fun line => !isRemark line)).map blockText := by
  have hgather := gather_eq_runs (List.forall_mem_nil _) (bodies lines)
  rw [List.nil_append] at hgather
  rw [← hgather, blocks]
  rcases gather [] (bodies lines) with ⟨closed, _ | ⟨line, pending⟩⟩
  · exact (List.append_nil closed).symm
  · rfl

/-! ## Paragraphs -/

/-- The lines without the line ends behind them, and the first one without a byte-order mark in
front. -/
def rows (lines : List (List Char)) : List (List Char) :=
  (lines.map fun line => line.rdropWhile fun c => c == '\r' || c == '\n').modifyHead fun first =>
    if first.head? = some '\ufeff' then first.tail else first

/-- The maximal runs of lines that are not blank, among the lines that do not start with a
semicolon. -/
def paragraphs (lines : List (List Char)) : List (List (List Char)) :=
  runs (fun row => row.all Text.isBlank) ((rows lines).filter fun row => row.head? != some ';')

theorem dropMark_eq (line : List Char) :
    dropMark line = if line.head? = some '\ufeff' then line.tail else line := by
  fun_cases dropMark line with
  | case1 rest => simp
  | case2 line hmark =>
      have hhead : line.head? ≠ some '\ufeff' := by
        intro hhead
        obtain ⟨rest, rfl⟩ := List.head?_eq_some_iff.1 hhead
        exact hmark rest rfl
      rw [if_neg hhead]

theorem bodies_eq_rows (lines : List (List Char)) : bodies lines = rows lines := by
  cases lines with
  | nil => rfl
  | cons line lines =>
      rw [bodies, dropMark_eq]
      rfl

/-- The lines that are dropped are not blank. -/
theorem not_all_isBlank_of_head? {row : List Char} (h : row.head? = some ';') :
    row.all Text.isBlank = false := by
  obtain ⟨rest, rfl⟩ := List.head?_eq_some_iff.1 h
  rw [List.all_cons]
  rfl

theorem blocks_eq_map_paragraphs (lines : List (List Char)) :
    blocks lines = (paragraphs lines).map blockText := by
  rw [blocks_eq_map_runs, bodies_eq_rows, paragraphs]
  rfl

/-- A sequence read off by its places. -/
theorem map_getD_range {α : Type} (items : List α) (default : α) :
    (List.range items.length).map (fun i => items.getD i default) = items := by
  apply List.ext_getElem
  · rw [List.length_map, List.length_range]
  · intro i _ hi
    rw [List.getElem_map, List.getElem_range]
    rw [List.getD_eq_getElem?_getD, List.getElem?_eq_getElem hi, Option.getD_some]

theorem length_rows (lines : List (List Char)) : (rows lines).length = lines.length := by
  rw [rows, List.length_modifyHead, List.length_map]

/-- The line in a place; there is an empty one behind the last. -/
def rowAt (lines : List (List Char)) (i : Nat) : List Char := (rows lines).getD i []

/-- The places of the lines of each paragraph. -/
def paragraphPlaces (lines : List (List Char)) : List (List Nat) :=
  runs ((·.all Text.isBlank) ∘ rowAt lines)
    ((List.range lines.length).filter ((·.head? != some ';') ∘ rowAt lines))

theorem map_rowAt_paragraphPlaces (lines : List (List Char)) :
    (paragraphPlaces lines).map (List.map (rowAt lines)) = paragraphs lines := by
  have hrows : (List.range lines.length).map (rowAt lines) = rows lines := by
    rw [← length_rows]
    exact map_getD_range (rows lines) []
  rw [paragraphPlaces, map_runs, ← List.filter_map, hrows, paragraphs]

theorem flatten_paragraphPlaces (lines : List (List Char)) :
    (paragraphPlaces lines).flatten = (List.range lines.length).filter fun i =>
      (rowAt lines i).head? != some ';' && !(rowAt lines i).all Text.isBlank := by
  rw [paragraphPlaces, flatten_runs, List.filter_filter]
  apply List.filter_congr
  intro i _
  exact Bool.and_comm _ _

/-- Two lines are in one paragraph exactly if no line between them is blank. -/
theorem share_paragraph_iff {lines : List (List Char)} {i j : Nat} (hlt : i < j)
    (hi : i ∈ (paragraphPlaces lines).flatten) (hj : j ∈ (paragraphPlaces lines).flatten) :
    (∃ part ∈ paragraphPlaces lines, i ∈ part ∧ j ∈ part) ↔
      ∀ k, i < k → k < j → (rowAt lines k).all Text.isBlank = false := by
  rw [paragraphPlaces, flatten_runs, List.mem_filter, Bool.not_eq_eq_eq_not, Bool.not_true] at hi hj
  have hsorted : ((List.range lines.length).filter
      ((·.head? != some ';') ∘ rowAt lines)).Pairwise (· < ·) :=
    List.pairwise_lt_range.filter _
  rw [paragraphPlaces, exists_mem_runs_iff hsorted hi.1 hj.1 hi.2 hj.2 hlt]
  refine ⟨fun hbetween k hik hkj => ?_, fun hbetween k _ => hbetween k⟩
  -- a line that is dropped is not blank and separates nothing
  by_cases hdropped : (rowAt lines k).head? = some ';'
  · exact not_all_isBlank_of_head? hdropped
  · have hj' := List.mem_range.1 (List.mem_filter.1 hj.1).1
    apply hbetween k _ hik hkj
    exact List.mem_filter.2 ⟨List.mem_range.2 (by omega), by simpa using hdropped⟩

/-- **Blocks are paragraphs.** For all lines, the blocks are the paragraphs in order, each as its
lines with a newline between them and one at the end. The places of the lines that are neither
dropped nor blank come up in the paragraphs once each and in order, and no paragraph is empty. Two
of these lines are in one paragraph exactly if no line between them is blank. -/
theorem blocks_are_paragraphs (lines : List (List Char)) :
    blocks lines = (paragraphs lines).map (fun rows => ['\n'].intercalate rows ++ ['\n']) ∧
    ∃ places : List (List Nat),
      paragraphs lines = places.map (List.map (rowAt lines)) ∧ [] ∉ places ∧
      places.flatten = ((List.range lines.length).filter fun i =>
        (rowAt lines i).head? != some ';' && !(rowAt lines i).all Text.isBlank) ∧
      ∀ i j, i < j → i ∈ places.flatten → j ∈ places.flatten →
        ((∃ part ∈ places, i ∈ part ∧ j ∈ part) ↔
          ∀ k, i < k → k < j → (rowAt lines k).all Text.isBlank = false) := by
  constructor
  · rw [blocks_eq_map_paragraphs]
    apply List.map_congr_left
    intro part hpart
    apply blockText_eq_intercalate
    rintro rfl
    exact nil_not_mem_runs _ _ hpart
  · refine ⟨paragraphPlaces lines, (map_rowAt_paragraphPlaces lines).symm, nil_not_mem_runs _ _,
      flatten_paragraphPlaces lines, ?_⟩
    intro i j hlt hi hj
    exact share_paragraph_iff hlt hi hj

/-- The mark in front hides no comment, a comment between two lines does not part them, and the last
block needs no blank line behind it. -/
example :
    blocks (["\ufeff; a\n", "b\n", "; c\n", "d\r\n", " \n", "e"].map String.toList) =
      ["b\nd\n", "e\n"].map String.toList := by decide +kernel

end BelLisp.Source
