import BelLisp.Proofs.Source.Load

/-!
# How far a load gets

A load takes the blocks of a file in order. It attempts all of them, or as many as its limit allows
(`attempted`), and goes on until a block fails. So two things can happen. The attempted blocks can
be read and evaluated one after the other (`Evaluates`), and the load counts them and leaves the
context that they lead to. Or there is a first block among them that fails (`Fails`), and the load
ends there with a fault about this block. What comes behind the blocks that were attempted plays no
part: it could be anything.

Both relations are about reading and evaluating alone and know nothing of counters and limits. That
a load follows them is `loadBlocks_of_evaluates`, over the blocks that can be evaluated, and
`loadBlocks_of_fails` for the block that ends it.
-/

set_option autoImplicit false

namespace BelLisp.Source

open Text (splitLines unifyNewlines decodeUtf8 decodeUtf8From utf8Lead? utf8Follow)

/-- The blocks can be read and evaluated in order, each with fresh locals, and lead from one context
to another. -/
inductive Evaluates : Context → List String → Context → Prop where
  | nil (ctx : Context) : Evaluates ctx [] ctx
  | cons {ctx after : Context} {block : String} {rest : List String} {form value : Datum}
      (hread : read block = .ok form)
      (hvalue : (Session.evalExpr form .empty ctx).outcome = .ok value)
      (hrest : Evaluates (Session.evalExpr form .empty ctx).context rest after) :
      Evaluates ctx (block :: rest) after

/-- The block fails, and leaves a context. If it cannot be read this is the context that it found,
else it is what the evaluation has left. -/
inductive Fails : Context → String → Fault → Context → Prop where
  | unreadable {ctx : Context} {block : String} {fault : ReadFault}
      (hread : read block = .error fault) : Fails ctx block (.misread fault) ctx
  | raised {ctx : Context} {block : String} {form : Datum} {fault : Fault}
      (hread : read block = .ok form)
      (hfault : (Session.evalExpr form .empty ctx).outcome = .error fault) :
      Fails ctx block fault (Session.evalExpr form .empty ctx).context

/-- The blocks of a file whose bytes are text. -/
def textBlocks (bytes : List UInt8) : List String :=
  (blocks (splitLines (unifyNewlines (decodeUtf8 bytes).chars))).map String.ofList

/-- How many of `n` blocks a load attempts under a limit. -/
def attempted (limit : Option Int) (n : Nat) : Nat :=
  match limit with
  | none => n
  | some bound => (max 0 (min bound n)).toNat

/-! ## Limits -/

theorem attempted_le (limit : Option Int) (n : Nat) : attempted limit n ≤ n := by
  cases limit with
  | none => exact Nat.le_refl n
  | some bound =>
      simp only [attempted]
      omega

theorem reached_of_lt_attempted {limit : Option Int} {n count : Nat}
    (h : count < attempted limit n) : reached limit count = false := by
  cases limit with
  | none => rfl
  | some bound =>
      simp only [attempted] at h
      simp only [reached, decide_eq_false_iff_not]
      omega

/-- If there are blocks that are not attempted, it is the limit that keeps the load from them. -/
theorem reached_attempted {limit : Option Int} {n : Nat} (h : attempted limit n < n) :
    reached limit (attempted limit n) = true := by
  cases limit with
  | none => exact absurd h (Nat.lt_irrefl n)
  | some bound =>
      simp only [attempted] at h ⊢
      simp only [reached, decide_eq_true_eq]
      omega

/-- A block that is attempted among some blocks is attempted among all that are as many. -/
theorem lt_attempted_of_lt {limit : Option Int} {k n n' : Nat} (h : k < attempted limit n)
    (hk : k < n') : k < attempted limit n' := by
  cases limit with
  | none => exact hk
  | some bound =>
      simp only [attempted] at h ⊢
      omega

/-! ## One block -/

section Blocks

variable {ctx : Context} {block path : String} {rest : List String} {limit : Option Int}
  {ending : Option Text.Utf8Fault} {count : Nat}

theorem evalBlock_of_fails {fault : Fault} {after : Context} (h : Fails ctx block fault after) :
    ∃ trace, evalBlock block ctx = ⟨.error fault, after, trace⟩ := by
  cases h with
  | unreadable hread => exact ⟨.none, by rw [evalBlock, hread]⟩
  | raised hread hfault =>
      rename_i form
      refine ⟨(Session.evalExpr form .empty ctx).trace, ?_⟩
      rw [evalBlock, hread, ← hfault]

/-- A block can be read and evaluated, or it fails. -/
theorem evaluates_or_fails_block (ctx : Context) (block : String) :
    (∃ form value, read block = .ok form ∧
      (Session.evalExpr form .empty ctx).outcome = .ok value) ∨
    ∃ fault after, Fails ctx block fault after := by
  cases hread : read block with
  | error fault => exact Or.inr ⟨_, _, .unreadable hread⟩
  | ok form =>
      cases hvalue : (Session.evalExpr form .empty ctx).outcome with
      | error fault => exact Or.inr ⟨_, _, .raised hread hvalue⟩
      | ok value => exact Or.inl ⟨form, value, rfl, hvalue⟩

theorem loadBlocks_of_reached (hlimit : reached limit count = true) :
    loadBlocks path limit none count (block :: rest) ctx =
      ⟨.ok count, ctx, .event (.fileLoaded path count)⟩ := by
  rw [loadBlocks, if_pos hlimit]

/-- A block that fails ends the load, whatever comes behind it. -/
theorem loadBlocks_of_fails {fault : Fault} {after : Context} (hlimit : reached limit count = false)
    (h : Fails ctx block fault after) :
    loadBlocks path limit ending count (block :: rest) ctx =
      ⟨.error (.block path (count + 1) block fault), after, (evalBlock block ctx).trace⟩ := by
  obtain ⟨trace, heval⟩ := evalBlock_of_fails h
  rw [loadBlocks, hlimit, heval]
  rfl

/-- After a block that has a value the load goes on with the next, in the context that it left. -/
theorem loadBlocks_of_ok {form value : Datum} (hlimit : reached limit count = false)
    (hread : read block = .ok form)
    (hvalue : (Session.evalExpr form .empty ctx).outcome = .ok value) :
    loadBlocks path limit ending count (block :: rest) ctx =
      let first := Session.evalExpr form .empty ctx
      let run := loadBlocks path limit ending (count + 1) rest first.context
      { run with
        trace := first.trace ++ (.event (.blockLoaded path (count + 1)) ++ run.trace) } := by
  have heval : evalBlock block ctx = Session.evalExpr form .empty ctx := by
    rw [evalBlock, hread]
  rw [loadBlocks, hlimit, heval]
  generalize Session.evalExpr form .empty ctx = first at hvalue ⊢
  rcases first with ⟨outcome, ctx', trace⟩
  cases hvalue
  rfl

/-! ## Blocks in sequence -/

/-- A load passes over blocks that can be evaluated as far as its limit allows, and goes on in the
context that they lead to. Their reports depend on nothing that comes later. -/
theorem loadBlocks_of_evaluates {before : Context} {done : List String}
    (h : Evaluates ctx done before) (path : String) (count : Nat) :
    ∃ behind : Trace → Trace, ∀ limit ending rest,
      (∀ i < done.length, reached limit (count + i) = false) →
      loadBlocks path limit ending count (done ++ rest) ctx =
        let run := loadBlocks path limit ending (count + done.length) rest before
        { run with trace := behind run.trace } := by
  -- one block takes one step of the counter
  induction h generalizing count with
  | nil ctx => exact ⟨id, fun limit ending rest _ => rfl⟩
  | cons hread hvalue _ ih =>
      rename_i ctx after block done form value _
      obtain ⟨behind, hrun⟩ := ih (count + 1)
      let trace := (Session.evalExpr form .empty ctx).trace
      refine ⟨fun later => trace ++ (.event (.blockLoaded path (count + 1)) ++ behind later), ?_⟩
      intro limit ending rest hlimit
      have hfirst : reached limit count = false := hlimit 0 (Nat.succ_pos _)
      have hlater : ∀ i < done.length, reached limit (count + 1 + i) = false := by
        intro i hi
        have hnext := hlimit (i + 1) (Nat.succ_lt_succ hi)
        rw [Nat.add_assoc, Nat.add_comm 1 i]
        exact hnext
      rw [List.cons_append, loadBlocks_of_ok hfirst hread hvalue]
      simp only
      rw [hrun limit ending rest hlater, List.length_cons, Nat.add_assoc, Nat.add_comm 1]

/-- Blocks can all be evaluated in order, or there is a first one that fails. -/
theorem evaluates_or_fails (blocks : List String) (ctx : Context) :
    (∃ after, Evaluates ctx blocks after) ∨
    ∃ k block before fault after, blocks[k]? = some block ∧
      Evaluates ctx (blocks.take k) before ∧ Fails before block fault after := by
  -- the first block decides, or it leaves the decision to the others in the context after it
  induction blocks generalizing ctx with
  | nil => exact Or.inl ⟨ctx, .nil ctx⟩
  | cons block rest ih =>
      rcases evaluates_or_fails_block ctx block with
        ⟨form, value, hread, hvalue⟩ | ⟨fault, after, hfails⟩
      · rcases ih (Session.evalExpr form .empty ctx).context with
          ⟨after, hrest⟩ | ⟨k, failing, before, fault, after, hk, hrest, hfails⟩
        · exact Or.inl ⟨after, .cons hread hvalue hrest⟩
        · exact Or.inr ⟨k + 1, failing, before, fault, after, hk, .cons hread hvalue hrest, hfails⟩
      · exact Or.inr ⟨0, block, ctx, fault, after, rfl, .nil ctx, hfails⟩

/-- If the attempted blocks can all be evaluated, the load counts them. -/
theorem loadBlocks_of_evaluates_attempted {blocks : List String} {after : Context}
    (h : Evaluates ctx (blocks.take (attempted limit blocks.length)) after) :
    (loadBlocks path limit none 0 blocks ctx).outcome = .ok (attempted limit blocks.length) ∧
      (loadBlocks path limit none 0 blocks ctx).context = after := by
  obtain ⟨behind, hrun⟩ := loadBlocks_of_evaluates h path 0
  have hlength : (blocks.take (attempted limit blocks.length)).length =
      attempted limit blocks.length :=
    List.length_take_of_le (attempted_le limit blocks.length)
  have hload := hrun limit none (blocks.drop (attempted limit blocks.length)) fun i hi => by
    rw [hlength] at hi
    rw [Nat.zero_add]
    exact reached_of_lt_attempted hi
  rw [List.take_append_drop, hlength, Nat.zero_add] at hload
  rw [hload]
  -- behind the attempted blocks the file ends, or the limit is reached
  cases hrest : blocks.drop (attempted limit blocks.length) with
  | nil => exact ⟨rfl, rfl⟩
  | cons block rest =>
      have hlt : attempted limit blocks.length < blocks.length := by
        have hlengths := congrArg List.length hrest
        rw [List.length_drop, List.length_cons] at hlengths
        omega
      rw [loadBlocks_of_reached (reached_attempted hlt)]
      exact ⟨rfl, rfl⟩

/-- The first block that fails among the attempted ones ends the load, with a run that depends on
the blocks up to this one only. -/
theorem loadBlocks_of_fails_attempted {done : List String} {before after : Context} {fault : Fault}
    (hdone : Evaluates ctx done before) (hfails : Fails before block fault after) (path : String) :
    ∃ trace, ∀ limit rest, done.length < attempted limit (done ++ block :: rest).length →
      loadBlocks path limit none 0 (done ++ block :: rest) ctx =
        ⟨.error (.block path (done.length + 1) block fault), after, trace⟩ := by
  obtain ⟨behind, hrun⟩ := loadBlocks_of_evaluates hdone path 0
  refine ⟨behind (evalBlock block before).trace, fun limit rest hlimit => ?_⟩
  -- the limit stops the load neither before the failing block nor at it
  have hreached : ∀ i ≤ done.length, reached limit i = false := by
    intro i hi
    exact reached_of_lt_attempted (Nat.lt_of_le_of_lt hi hlimit)
  rw [hrun limit none (block :: rest) fun i hi => by
    rw [Nat.zero_add]
    exact hreached i (Nat.le_of_lt hi)]
  rw [Nat.zero_add, loadBlocks_of_fails (hreached _ (Nat.le_refl _)) hfails]

end Blocks

/-! ## Files -/

/-- A list that agrees with another up to one of its elements, taken apart there. -/
theorem eq_append_of_take_eq {found others : List String} {k : Nat} {block : String}
    (hsame : others.take (k + 1) = found.take (k + 1)) (hblock : found[k]? = some block) :
    others = found.take k ++ block :: others.drop (k + 1) := by
  have htake : found.take (k + 1) = found.take k ++ [block] := by
    rw [List.take_add_one, hblock]
    rfl
  calc others = others.take (k + 1) ++ others.drop (k + 1) :=
        (List.take_append_drop (k + 1) others).symm
    _ = found.take k ++ block :: others.drop (k + 1) := by
        rw [hsame, htake, List.append_assoc]
        rfl

theorem load_of_clean {files : FileReader} {path : Path} {bytes : List UInt8}
    (hread : files.read path = .ok bytes) (hclean : (decodeUtf8 bytes).ending = .clean)
    (limit : Option Int) (ctx : Context) :
    load files path limit ctx = loadBlocks path.text limit none 0 (textBlocks bytes) ctx := by
  have hblocks : blocksOfBytes bytes = .ok ⟨textBlocks bytes, none⟩ :=
    blocksOfBytes_eq_ok_none_iff.2 ⟨hclean, rfl⟩
  simp only [load, hread, loadBytes, hblocks]

/-- **How far a load gets.** The attempted blocks of a file can be read and evaluated in order, or
there is a first one that fails. In the first case the load counts them and leaves the context that
they lead to. In the second case its fault names the block, with its index and with the cause, and
the context is what this block has left. It is then the same load for every other file that has the
same blocks up to this one: no later block is read or evaluated. -/
theorem load_follows_blocks {files : FileReader} {path : Path} {bytes : List UInt8}
    (hread : files.read path = .ok bytes) (hclean : (decodeUtf8 bytes).ending = .clean)
    (limit : Option Int) (ctx : Context) :
    let found := textBlocks bytes
    let m := attempted limit found.length
    let run := load files path limit ctx
    ((∃ after, Evaluates ctx (found.take m) after) ∨
      ∃ k block before fault after, k < m ∧ found[k]? = some block ∧
        Evaluates ctx (found.take k) before ∧ Fails before block fault after) ∧
    (∀ after, Evaluates ctx (found.take m) after →
      run.outcome = .ok m ∧ run.context = after) ∧
    ∀ k block before fault after, k < m → found[k]? = some block →
      Evaluates ctx (found.take k) before → Fails before block fault after →
        run.outcome = .error (.block path.text (k + 1) block fault) ∧ run.context = after ∧
        ∀ files' bytes', FileReader.read files' path = .ok bytes' →
          (decodeUtf8 bytes').ending = .clean →
          (textBlocks bytes').take (k + 1) = found.take (k + 1) →
          load files' path limit ctx = run := by
  intro found m run
  have hload : run = loadBlocks path.text limit none 0 found ctx :=
    load_of_clean hread hclean limit ctx
  have hm : m ≤ found.length := attempted_le limit found.length
  refine ⟨?_, fun after hafter => ?_, fun k block before fault after hk hblock hdone hfails => ?_⟩
  · rcases evaluates_or_fails (found.take m) ctx with
      hall | ⟨k, block, before, fault, after, hblock, hdone, hfails⟩
    · exact Or.inl hall
    · -- a block among the attempted ones is the same block of the file
      have hk : k < m := by
        have hlt := (List.getElem?_eq_some_iff.1 hblock).1
        rw [List.length_take] at hlt
        omega
      rw [List.getElem?_take_of_lt hk] at hblock
      rw [List.take_take, Nat.min_eq_left (Nat.le_of_lt hk)] at hdone
      exact Or.inr ⟨k, block, before, fault, after, hk, hblock, hdone, hfails⟩
  · rw [hload]
    exact loadBlocks_of_evaluates_attempted hafter
  · obtain ⟨trace, hrun⟩ := loadBlocks_of_fails_attempted hdone hfails path.text
    have hlength : (found.take k).length = k :=
      List.length_take_of_le (Nat.le_of_lt (Nat.lt_of_lt_of_le hk hm))
    -- blocks that agree up to the failing one lead to the run that is known there
    have hfail : ∀ others : List String, others.take (k + 1) = found.take (k + 1) →
        loadBlocks path.text limit none 0 others ctx =
          ⟨.error (.block path.text (k + 1) block fault), after, trace⟩ := by
      intro others hothers
      have hsplit := eq_append_of_take_eq hothers hblock
      have hlt : k < others.length := by
        have hlengths := congrArg List.length hsplit
        rw [List.length_append, hlength, List.length_cons] at hlengths
        omega
      have hload := hrun limit (others.drop (k + 1))
      rw [← hsplit, hlength] at hload
      exact hload (lt_attempted_of_lt hk hlt)
    rw [hload, hfail found rfl]
    refine ⟨rfl, rfl, fun files' bytes' hread' hclean' hsame => ?_⟩
    rw [load_of_clean hread' hclean', hfail _ hsame]

/-- The second block of the file cannot be read. Under the limit one the load does not come to it;
under the limit seven it ends there, in the context that the first block left. -/
theorem load_follows_blocks_unmatched :
    let bytes : List UInt8 := "(set a b)\n\n(car\n\nc".toList.map fun c => UInt8.ofNat c.toNat
    let files : FileReader := fun _ => .ok bytes
    let path := Path.ofString "a.bel"
    let ctx := Context.fresh Registry.standard 9
    let after := (Session.evalExpr (.ofList [.sym "set", .sym "a", .sym "b"]) .empty ctx).context
    (load files path (some 1) ctx).outcome = .ok 1 ∧
      (load files path (some 1) ctx).context = after ∧
      (load files path (some 7) ctx).outcome =
        .error (.block path.text 2 "(car\n" (.misread .unmatchedOpen)) ∧
      (load files path (some 7) ctx).context = after := by
  intro bytes files path ctx after
  have hread : files.read path = .ok bytes := by
    have hnull : path.text.toList.contains '\x00' = false := by decide +kernel
    rw [FileReader.read, hnull]
    rfl
  have hclean : (decodeUtf8 bytes).ending = .clean := by
    simp [bytes, decodeUtf8, decodeUtf8From, utf8Lead?, utf8Follow]
  have hblocks : textBlocks bytes = ["(set a b)\n", "(car\n", "c\n"] := by decide +kernel
  have hset : read "(set a b)\n" = .ok (.ofList [.sym "set", .sym "a", .sym "b"]) := by cbv
  have hcar : read "(car\n" = .error .unmatchedOpen := by cbv
  have hvalue : (Session.evalExpr (.ofList [.sym "set", .sym "a", .sym "b"]) .empty ctx).outcome =
      .ok .nil := rfl
  have hfirst : Evaluates ctx ["(set a b)\n"] after := .cons hset hvalue (.nil after)
  have hlimited := load_follows_blocks hread hclean (some 1) ctx
  have hfull := load_follows_blocks hread hclean (some 7) ctx
  rw [hblocks] at hlimited hfull
  obtain ⟨-, hcounts, -⟩ := hlimited
  obtain ⟨-, -, hends⟩ := hfull
  obtain ⟨houtcome, hcontext, -⟩ :=
    hends 1 "(car\n" after _ after (by decide) rfl hfirst (.unreadable hcar)
  exact ⟨(hcounts after hfirst).1, (hcounts after hfirst).2, houtcome, hcontext⟩

end BelLisp.Source
