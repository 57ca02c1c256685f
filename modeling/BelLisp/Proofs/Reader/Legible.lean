import BelLisp.Proofs.Reader.Scan
import BelLisp.Reader.Form

/-!
# What is read is legible

An object is legible if it has no stream in it and every name in it could be the text of a token.
The reader builds its objects from legible tokens and from the two symbols `quote` and `nil`, so
every object it hands out is legible (`legible_of_read`).
-/

set_option autoImplicit false

namespace BelLisp

/-- No stream stands in the object, and every name in it could be the text of a token. -/
def Datum.Legible : Datum → Prop
  | .sym name => Text.IsPlain symbolMarks name
  | .pair car cdr => Legible car ∧ Legible cdr
  | .chr text => Text.IsPlain charMarks text
  | .stream => False

namespace Datum

/-- A text of plain letters is plain. -/
theorem legible_sym_of_all {name : String} (hne : name ≠ "")
    (h : name.toList.all isSymbolLetter = true) : (Datum.sym name).Legible :=
  ⟨hne, fun c hc => isSymbolLetter_iff.1 (List.all_eq_true.1 h c hc)⟩

theorem legible_nil : nil.Legible := legible_sym_of_all (by decide) (by decide)

theorem legible_ofListTail {items : List Datum} {tail : Datum} (h : ∀ d ∈ items, d.Legible)
    (htail : tail.Legible) : (ofListTail items tail).Legible := by
  induction items with
  | nil => exact htail
  | cons item items ih =>
      obtain ⟨hitem, hitems⟩ := List.forall_mem_cons.1 h
      exact ⟨hitem, ih hitems⟩

end Datum

/-! ## States of the reader -/

/-- The elements that a frame has collected are legible. -/
def Frame.Legible : Frame → Prop
  | .quoting _ => True
  | .items elements => ∀ d ∈ elements, d.Legible
  | .tail elements => ∀ d ∈ elements, d.Legible

namespace ReadState

/-- Everything that the reader has read so far is legible. -/
def Legible : ReadState → Prop
  | .open frames => ∀ frame ∈ frames, frame.Legible
  | .closing elements tail frames =>
    (∀ d ∈ elements, d.Legible) ∧ tail.Legible ∧ ∀ frame ∈ frames, frame.Legible
  | .done d => d.Legible

theorem legible_start : start.Legible := List.forall_mem_nil _

theorem legible_quotation {d : Datum} (h : d.Legible) : (quotation d).Legible :=
  ⟨Datum.legible_sym_of_all (by decide) (by decide), h, Datum.legible_nil⟩

theorem legible_deliver {d : Datum} {frames : List Frame} (hd : d.Legible)
    (hframes : ∀ frame ∈ frames, frame.Legible) : (deliver d frames).Legible := by
  fun_induction deliver d frames with
  | case1 d => exact hd
  | case2 d mark frames ih =>
      exact ih (legible_quotation hd) (List.forall_mem_cons.1 hframes).2
  | case3 d elements frames =>
      obtain ⟨helements, houter⟩ := List.forall_mem_cons.1 hframes
      exact List.forall_mem_cons.2 ⟨List.forall_mem_cons.2 ⟨hd, helements⟩, houter⟩
  | case4 d elements frames =>
      obtain ⟨helements, houter⟩ := List.forall_mem_cons.1 hframes
      exact ⟨helements, hd, houter⟩

theorem legible_take {token : Token} {state next : ReadState} (htoken : token.Legible)
    (hstate : state.Legible) (h : state.take token = .ok next) : next.Legible := by
  rcases token with ⟨kind, text⟩
  rcases state with frames | ⟨elements, tail, frames⟩ | d
  · cases kind with
    | sym =>
        have hdeliver : (deliver (.sym text) frames).Legible := legible_deliver htoken hstate
        simp only [take] at h
        split at h
        · split at h
          · -- a dot delivers nothing: the elements read so far wait for the last tail
            cases h
            obtain ⟨helements, houter⟩ := List.forall_mem_cons.1 hstate
            exact List.forall_mem_cons.2 ⟨helements, houter⟩
          · cases h
            exact hdeliver
        · cases h
          exact hdeliver
    | chr =>
        cases h
        exact legible_deliver htoken hstate
    | quote =>
        cases h
        exact List.forall_mem_cons.2 ⟨trivial, hstate⟩
    | openBracket =>
        cases h
        exact List.forall_mem_cons.2 ⟨List.forall_mem_nil _, hstate⟩
    | closeBracket =>
        simp only [take] at h
        split at h
        · cases h
          obtain ⟨helements, houter⟩ := List.forall_mem_cons.1 hstate
          refine legible_deliver (Datum.legible_ofListTail ?_ Datum.legible_nil) houter
          exact fun d hd => helements d (List.mem_reverse.1 hd)
        · simp at h
    | other name => simp [take] at h
  · obtain ⟨helements, htail, hframes⟩ := hstate
    simp only [take] at h
    split at h
    · cases h
      refine legible_deliver (Datum.legible_ofListTail ?_ htail) hframes
      exact fun d hd => helements d (List.mem_reverse.1 hd)
    · simp at h
  · cases h
    exact hstate

end ReadState

/-! ## Texts -/

theorem legible_of_mem_readFormsFrom {scanFault : Option ReadFault} {state : ReadState}
    {tokens : List Token} (hstate : state.Legible) (htokens : ∀ token ∈ tokens, token.Legible) :
    ∀ d ∈ (readFormsFrom scanFault state tokens).forms, d.Legible := by
  fun_induction readFormsFrom scanFault state tokens with
  | case1 state fault => exact List.forall_mem_nil _
  | case2 state fault _ => exact List.forall_mem_nil _
  | case3 state form _ => exact List.forall_mem_nil _
  | case4 state token tokens fault _ => exact List.forall_mem_nil _
  | case5 state token tokens d htake reading ih =>
      obtain ⟨htoken, htokens⟩ := List.forall_mem_cons.1 htokens
      have hd : d.Legible := ReadState.legible_take htoken hstate htake
      exact List.forall_mem_cons.2 ⟨hd, ih ReadState.legible_start htokens⟩
  | case6 state token tokens next _ htake ih =>
      obtain ⟨htoken, htokens⟩ := List.forall_mem_cons.1 htokens
      exact ih (ReadState.legible_take htoken hstate htake) htokens

/-- Every object of a text is legible, as far as the text can be read. -/
theorem legible_of_mem_readAll {source : String} {d : Datum} (h : d ∈ (readAll source).forms) :
    d.Legible :=
  legible_of_mem_readFormsFrom ReadState.legible_start (fun _ => legible_of_mem_scan) d h

/-- The one object of a text is legible; a text without any reads as `nil`, which is legible too. -/
theorem legible_of_read {source : String} {d : Datum} (h : read source = .ok d) : d.Legible := by
  simp only [read] at h
  split at h
  · simp at h
  · split at h
    · cases h
      exact Datum.legible_nil
    · rename_i form hforms
      cases h
      exact legible_of_mem_readAll (by rw [hforms]; exact List.mem_singleton_self _)
    · simp at h

end BelLisp
