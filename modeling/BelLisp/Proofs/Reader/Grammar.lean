import BelLisp.Proofs.Reader.ReadBack
import BelLisp.Reader.TokenStream

/-!
# The grammar of forms

`Derives` says which sequences of tokens are the written shape of which object, rule by rule and
without a reader. In a list a dot may stand for a symbol only as the first element; behind an
element it is the mark before the last tail.

The reader follows the grammar in both directions. What the grammar derives leads through the
reader's states to the delivery of the object (`takes_of_derives`). Conversely every state that the
reader reaches is explained by the tokens it has taken (`ReadState.Explains`): what is open has been
opened by them, and what is complete has been derived from them. So the reader takes exactly the
tokens of one form, and no other prefix of the tokens is a form (`readForm_eq_ok_iff_derives`).
-/

set_option autoImplicit false

namespace BelLisp

/-- The tokens are the written shape of the object. The elements of a list come with the tokens that
they are written in. -/
inductive Derives : List Token → Datum → Prop
  | symbol (name : String) : Derives [.ofSymbol name] (.sym name)
  | char (text : String) : Derives [.ofChar text] (.chr text)
  | quoted (mark : String) {tokens : List Token} {d : Datum} :
      Derives tokens d → Derives (⟨.quote, mark⟩ :: tokens) (.ofList [.sym "quote", d])
  | list (left right : String) {items : List (List Token × Datum)} :
      (∀ item ∈ items, Derives item.1 item.2) → (∀ item ∈ items.tail, item.1 ≠ [.dot]) →
        Derives (⟨.openBracket, left⟩ :: (items.flatMap Prod.fst ++ [⟨.closeBracket, right⟩]))
          (.ofList (items.map Prod.snd))
  | dotted (left right : String) {items : List (List Token × Datum)} {tokens : List Token}
      {tail : Datum} : items ≠ [] →
      (∀ item ∈ items, Derives item.1 item.2) → (∀ item ∈ items.tail, item.1 ≠ [.dot]) →
        Derives tokens tail →
          Derives (⟨.openBracket, left⟩ ::
              (items.flatMap Prod.fst ++ .dot :: (tokens ++ [⟨.closeBracket, right⟩])))
            (.ofListTail (items.map Prod.snd) tail)

/-- The elements are derived from their tokens, and none behind the first is a bare dot. -/
structure Elements (items : List (List Token × Datum)) : Prop where
  derived : ∀ item ∈ items, Derives item.1 item.2
  noDot : ∀ item ∈ items.tail, item.1 ≠ [.dot]

theorem Elements.snoc {items : List (List Token × Datum)} {tokens : List Token} {d : Datum}
    (h : Elements items) (hd : Derives tokens d) (hdot : items ≠ [] → tokens ≠ [.dot]) :
    Elements (items ++ [(tokens, d)]) := by
  refine ⟨fun item hitem => ?_, fun item hitem => ?_⟩
  · rcases List.mem_append.1 hitem with hitem | hitem
    · exact h.derived item hitem
    · rw [List.mem_singleton.1 hitem]
      exact hd
  · cases items with
    | nil => simp at hitem
    | cons first items =>
        rcases List.mem_append.1 hitem with hitem | hitem
        · exact h.noDot item hitem
        · rw [List.mem_singleton.1 hitem]
          exact hdot (List.cons_ne_nil _ _)

namespace ReadState

/-! ## What is derived is read -/

/-- In every place where a form may come next, the tokens lead to the delivery of the object; a bare
dot does so only where no element of a list has been read. -/
def Takes (tokens : List Token) (d : Datum) : Prop :=
  ∀ frames, (tokens = [.dot] → ¬ BehindElement frames) →
    (ReadState.open frames).Reads tokens (deliver d frames)

theorem reads_items (frames : List Frame) (elements : List Datum)
    {items : List (List Token × Datum)} (htakes : ∀ item ∈ items, Takes item.1 item.2)
    (hfirst : elements ≠ [] → ∀ item ∈ items, item.1 ≠ [.dot])
    (hlater : ∀ item ∈ items.tail, item.1 ≠ [.dot]) :
    (ReadState.open (.items elements :: frames)).Reads (items.flatMap Prod.fst)
      (.open (.items ((items.map Prod.snd).reverse ++ elements) :: frames)) := by
  induction items generalizing elements with
  | nil => exact .refl _
  | cons item items ih =>
      obtain ⟨hitem, hitems⟩ := List.forall_mem_cons.1 htakes
      have hread : (ReadState.open (.items elements :: frames)).Reads item.1
          (.open (.items (item.2 :: elements) :: frames)) := by
        refine hitem (.items elements :: frames) fun hdot => ?_
        cases elements with
        | nil => exact id
        | cons e elements => exact absurd hdot (hfirst (List.cons_ne_nil _ _) item List.mem_cons_self)
      have hrest := ih (item.2 :: elements) hitems (fun _ => hlater)
        (fun other hother => hlater other (List.mem_of_mem_tail hother))
      simpa using hread.trans hrest

theorem take_close (elements : List Datum) (frames : List Frame) (right : String) :
    take ⟨.closeBracket, right⟩ (.open (.items elements :: frames)) =
      .ok (deliver (.ofList elements.reverse) frames) := rfl

theorem take_close_tail (elements : List Datum) (tail : Datum) (frames : List Frame)
    (right : String) :
    take ⟨.closeBracket, right⟩ (.closing elements tail frames) =
      .ok (deliver (.ofListTail elements.reverse tail) frames) := rfl

theorem takes_of_derives {tokens : List Token} {d : Datum} (h : Derives tokens d) :
    Takes tokens d := by
  induction h with
  | symbol name =>
      intro frames hdot
      refine .step id (take_symbol fun hname => hdot ?_) (.refl _)
      rw [hname]
      rfl
  | char text =>
      intro frames _
      exact .step id (take_char text) (.refl _)
  | @quoted mark tokens d _ ih =>
      intro frames _
      exact .step id rfl (ih (.quoting mark :: frames) fun _ => id)
  | @list left right items _ hdots ih =>
      intro frames _
      have hitems := reads_items frames [] ih (absurd rfl) hdots
      rw [List.append_nil] at hitems
      have hclose := take_close (items.map Prod.snd).reverse frames right
      rw [List.reverse_reverse] at hclose
      exact .step id rfl (hitems.trans (.step id hclose (.refl _)))
  | @dotted left right items tokens tail hne _ hdots _ ih ihTail =>
      intro frames _
      have hitems := reads_items frames [] ih (absurd rfl) hdots
      rw [List.append_nil] at hitems
      have hclose := take_close_tail (items.map Prod.snd).reverse tail frames right
      rw [List.reverse_reverse] at hclose
      -- the dot follows an element, so it is the mark before the last tail
      have hdot : take .dot (.open (.items (items.map Prod.snd).reverse :: frames)) =
          .ok (.open (.tail (items.map Prod.snd).reverse :: frames)) := by
        cases helements : (items.map Prod.snd).reverse with
        | nil => simp [hne] at helements
        | cons e elements => exact take_dot
      have htail := ihTail (.tail (items.map Prod.snd).reverse :: frames) fun _ => id
      exact .step id rfl (hitems.trans (.step id hdot (htail.trans (.step id hclose (.refl _)))))

/-! ## What is read is derived -/

/-- The tokens have opened the frames, and the elements in them are derived from their tokens. -/
inductive Opens : List Token → List Frame → Prop
  | nil : Opens [] []
  | quoting (mark : String) {tokens : List Token} {frames : List Frame} :
      Opens tokens frames → Opens (tokens ++ [⟨.quote, mark⟩]) (.quoting mark :: frames)
  | items (left : String) {tokens : List Token} {frames : List Frame}
      {items : List (List Token × Datum)} : Opens tokens frames → Elements items →
        Opens (tokens ++ ⟨.openBracket, left⟩ :: items.flatMap Prod.fst)
          (.items (items.map Prod.snd).reverse :: frames)
  | tail (left : String) {tokens : List Token} {frames : List Frame}
      {items : List (List Token × Datum)} : Opens tokens frames → Elements items → items ≠ [] →
        Opens (tokens ++ ⟨.openBracket, left⟩ :: (items.flatMap Prod.fst ++ [.dot]))
          (.tail (items.map Prod.snd).reverse :: frames)

/-- The tokens account for the state: they have opened what is open, and what is complete is derived
from them. -/
def Explains (tokens : List Token) : ReadState → Prop
  | .open frames => Opens tokens frames
  | .closing elements tail frames =>
    ∃ outer last, tokens = outer ++ last ∧ Opens outer (.tail elements :: frames) ∧
      Derives last tail
  | .done d => Derives tokens d

section Soundness

variable {tokens more : List Token} {frames : List Frame} {elements : List Datum} {d : Datum}

theorem opens_items_inv (h : Opens tokens (.items elements :: frames)) :
    ∃ left outer items, tokens = outer ++ ⟨.openBracket, left⟩ :: items.flatMap Prod.fst ∧
      elements = (items.map Prod.snd).reverse ∧ Opens outer frames ∧ Elements items := by
  cases h with
  | @items left outer _ items houter hitems => exact ⟨left, outer, items, rfl, rfl, houter, hitems⟩

theorem opens_tail_inv (h : Opens tokens (.tail elements :: frames)) :
    ∃ left outer items, tokens =
        outer ++ ⟨.openBracket, left⟩ :: (items.flatMap Prod.fst ++ [.dot]) ∧
      elements = (items.map Prod.snd).reverse ∧ items ≠ [] ∧ Opens outer frames ∧
        Elements items := by
  cases h with
  | @tail left outer _ items houter hitems hne =>
      exact ⟨left, outer, items, rfl, rfl, hne, houter, hitems⟩

theorem behindElement_of_elements {elements : List Datum} (h : elements ≠ []) :
    BehindElement (.items elements :: frames) := by
  cases elements with
  | nil => exact absurd rfl h
  | cons e elements => trivial

/-- Where the tokens account for what is open, a form behind them accounts for its delivery. -/
theorem explains_deliver (h : Opens tokens frames) (hd : Derives more d)
    (hdot : more = [.dot] → ¬ BehindElement frames) :
    (deliver d frames).Explains (tokens ++ more) := by
  induction h generalizing more d with
  | nil => exact hd
  | @quoting mark tokens frames _ ih =>
      rw [List.append_assoc]
      exact ih (.quoted mark hd) (by simp [Token.dot])
  | @items left tokens frames items hopens hitems _ =>
      have hsnoc := hitems.snoc hd fun hne hmore =>
        hdot hmore (behindElement_of_elements (by simpa using hne))
      have hopens' := Opens.items left hopens hsnoc
      simpa [Explains, deliver] using hopens'
  | @tail left tokens frames items hopens hitems hne _ =>
      exact ⟨_, more, rfl, .tail left hopens hitems hne, hd⟩

/-- A symbol accounts for the next state: a dot behind an element opens the last tail, any other
symbol is delivered. -/
theorem explains_take_symbol {next : ReadState} {name : String} (h : Opens tokens frames)
    (htake : take (.ofSymbol name) (.open frames) = .ok next) :
    next.Explains (tokens ++ [.ofSymbol name]) := by
  by_cases hdot : name = "." ∧ BehindElement frames
  · obtain ⟨rfl, hbehind⟩ := hdot
    match frames, hbehind with
    | .items (e :: elements) :: outer, _ =>
        have hnext : take (.ofSymbol ".") (.open (.items (e :: elements) :: outer)) =
            .ok (.open (.tail (e :: elements) :: outer)) := take_dot
        rw [hnext] at htake
        cases htake
        obtain ⟨left, before, items, rfl, helements, hbefore, hitems⟩ := opens_items_inv h
        have hne : items ≠ [] := by
          rintro rfl
          simp at helements
        have htail := Opens.tail left hbefore hitems hne
        rw [← helements] at htail
        simpa [Explains, Token.dot, Token.ofSymbol] using htail
  · rw [take_symbol fun hname hbehind => hdot ⟨hname, hbehind⟩] at htake
    cases htake
    refine explains_deliver h (.symbol name) fun hname hbehind => hdot ⟨?_, hbehind⟩
    simpa [Token.ofSymbol, Token.dot] using hname

/-- One token more accounts for the next state. -/
theorem explains_take {state next : ReadState} {token : Token} (hdone : ¬ state.IsDone)
    (hchar : token.kind = .chr → ∃ text, token = .ofChar text) (h : state.Explains tokens)
    (htake : state.take token = .ok next) : next.Explains (tokens ++ [token]) := by
  rcases token with ⟨kind, text⟩
  rcases state with frames | ⟨elements, tail, frames⟩ | d
  · cases kind with
    | sym => exact explains_take_symbol h htake
    | chr =>
        obtain ⟨name, htoken⟩ := hchar rfl
        rw [htoken, take_char] at htake
        cases htake
        rw [htoken]
        exact explains_deliver h (.char name) (by simp [Token.ofChar, Token.dot])
    | quote =>
        cases htake
        exact .quoting text h
    | openBracket =>
        cases htake
        have hnone : Elements [] := ⟨by simp, by simp⟩
        exact .items text h hnone
    | closeBracket =>
        simp only [take] at htake
        split at htake
        · cases htake
          obtain ⟨left, before, items, rfl, rfl, hbefore, hitems⟩ := opens_items_inv h
          have hlist := Derives.list left text hitems.derived hitems.noDot
          rw [List.reverse_reverse, List.append_assoc]
          exact explains_deliver hbefore hlist (by simp [Token.dot])
        · simp at htake
    | other name => simp [take] at htake
  · obtain ⟨outer, last, rfl, houter, hlast⟩ := h
    simp only [take] at htake
    split at htake
    · rename_i hclose
      cases hclose
      cases htake
      obtain ⟨left, before, items, rfl, rfl, hne, hbefore, hitems⟩ := opens_tail_inv houter
      have hlist := Derives.dotted left text hne hitems.derived hitems.noDot hlast
      have hdelivered := explains_deliver hbefore hlist (by simp [Token.dot])
      rw [List.reverse_reverse]
      simpa using hdelivered
    · simp at htake
  · exact absurd trivial hdone

end Soundness

end ReadState

/-! ## One form -/

theorem Derives.ne_nil {tokens : List Token} {d : Datum} (h : Derives tokens d) : tokens ≠ [] := by
  cases h <;> exact List.cons_ne_nil _ _

theorem readFormFrom_of_reads (scanFault : Option ReadFault) {state : ReadState}
    {tokens : List Token} {d : Datum} (hdone : ¬ state.IsDone) (h : state.Reads tokens (.done d))
    (rest : List Token) :
    readFormFrom scanFault state (tokens ++ rest) = (.ok (some d), rest) := by
  generalize hlast : ReadState.done d = last at h
  induction h with
  | refl state =>
      subst hlast
      exact absurd trivial hdone
  | @step state next last token tokens _ htake hreads ih =>
      rw [List.cons_append, readFormFrom, htake]
      rcases next with frames | ⟨elements, tail, frames⟩ | d'
      · exact ih id hlast
      · exact ih id hlast
      · -- the form is complete here, so no token of it is left
        obtain ⟨rfl, hd⟩ := hreads.eq_of_done
        rw [hd] at hlast
        cases hlast
        rfl

/-- The tokens of a form are read as its object, and the others are left. -/
theorem readFormFrom_of_derives (scanFault : Option ReadFault) {tokens : List Token} {d : Datum}
    (h : Derives tokens d) (rest : List Token) :
    readFormFrom scanFault .start (tokens ++ rest) = (.ok (some d), rest) :=
  readFormFrom_of_reads scanFault id (ReadState.takes_of_derives h [] fun _ => id) rest

/-- No two forms stand at the start of the same tokens. -/
theorem Derives.unique {tokens taken taken' : List Token} {d d' : Datum} (h : Derives taken d)
    (h' : Derives taken' d') (hstart : taken <+: tokens) (hstart' : taken' <+: tokens) :
    taken = taken' ∧ d = d' := by
  obtain ⟨rest, rfl⟩ := hstart
  obtain ⟨rest', htokens⟩ := hstart'
  have hread := readFormFrom_of_derives none h rest
  rw [← htokens, readFormFrom_of_derives none h' rest'] at hread
  cases hread
  exact ⟨(List.append_cancel_right htokens).symm, rfl⟩

/-- What is read is derived from the tokens taken for it, those before included. There is nothing to
read only if there has been no token at all. -/
theorem readFormFrom_explained {state : ReadState} {taken tokens rest : List Token}
    {form : Option Datum} (hdone : ¬ state.IsDone) (hstate : state.Explains taken)
    (hchars : ∀ token ∈ tokens, token.kind = .chr → ∃ text, token = .ofChar text)
    (h : readFormFrom none state tokens = (.ok form, rest)) :
    (∃ d more, form = some d ∧ tokens = more ++ rest ∧ Derives (taken ++ more) d) ∨
      (form = none ∧ taken = [] ∧ tokens = []) := by
  induction tokens generalizing state taken with
  | nil =>
      have hend : state.atEnd = .ok form := (Prod.mk.inj h).1
      cases form with
      | none =>
          obtain rfl : state = .open [] := ReadState.eq_start_of_atEnd hend
          cases hstate
          exact .inr ⟨rfl, rfl, rfl⟩
      | some d => exact absurd (ReadState.isDone_of_atEnd hend) hdone
  | cons token tokens ih =>
      obtain ⟨hchar, hchars⟩ := List.forall_mem_cons.1 hchars
      rw [readFormFrom] at h
      split at h
      · simp at h
      · rename_i d htake
        cases h
        exact .inl ⟨d, [token], rfl, rfl, ReadState.explains_take hdone hchar hstate htake⟩
      · rename_i next hopen htake
        have hnext := ReadState.explains_take hdone hchar hstate htake
        rcases ih (ReadState.not_isDone_of_ne hopen) hnext hchars h with
          ⟨d, more, rfl, rfl, hd⟩ | ⟨-, hnone, -⟩
        · exact .inl ⟨d, token :: more, rfl, rfl, by simpa using hd⟩
        · simp at hnone

/-- There are three ways for one reading to end: with the object of a form at the start of the
tokens, without one at their end, and with a fault if no form stands at their start. -/
theorem readFormFrom_cases (tokens : List Token)
    (hchars : ∀ token ∈ tokens, token.kind = .chr → ∃ text, token = .ofChar text) :
    (∃ d taken rest, readFormFrom none .start tokens = (.ok (some d), rest) ∧
      tokens = taken ++ rest ∧ Derives taken d) ∨
    (readFormFrom none .start tokens = (.ok none, []) ∧ tokens = []) ∨
    (∃ fault rest, readFormFrom none .start tokens = (.error fault, rest) ∧ tokens ≠ [] ∧
      ∀ taken d, Derives taken d → ¬ taken <+: tokens) := by
  cases hread : readFormFrom none .start tokens with
  | mk outcome rest =>
      cases outcome with
      | ok form =>
          have hstart : ReadState.start.Explains [] := ReadState.Opens.nil
          rcases readFormFrom_explained id hstart hchars hread with
            ⟨d, taken, rfl, htokens, hd⟩ | ⟨rfl, -, rfl⟩
          · exact .inl ⟨d, taken, rest, rfl, htokens, hd⟩
          · cases hread
            exact .inr (.inl ⟨rfl, rfl⟩)
      | error fault =>
          refine .inr (.inr ⟨fault, rest, rfl, ?_, ?_⟩)
          · rintro rfl
            cases hread
          · rintro taken d hd ⟨others, rfl⟩
            rw [readFormFrom_of_derives none hd] at hread
            cases hread

/-- All forms are the first one and those of the tokens that it leaves. -/
theorem readFormsFrom_eq (scanFault : Option ReadFault) {state : ReadState} (hdone : ¬ state.IsDone)
    (tokens : List Token) :
    readFormsFrom scanFault state tokens =
      match readFormFrom scanFault state tokens with
      | (.ok (some d), rest) =>
        { readFormsFrom scanFault .start rest with
          forms := d :: (readFormsFrom scanFault .start rest).forms }
      | (.ok none, rest) => ⟨[], none, rest⟩
      | (.error fault, rest) => ⟨[], some fault, rest⟩ := by
  induction tokens generalizing state with
  | nil =>
      cases scanFault with
      | some fault => simp [readFormsFrom, readFormFrom]
      | none =>
          cases hend : state.atEnd with
          | error fault => simp [readFormsFrom, readFormFrom, hend]
          | ok form =>
              cases form with
              | none => simp [readFormsFrom, readFormFrom, hend]
              | some d => exact absurd (ReadState.isDone_of_atEnd hend) hdone
  | cons token tokens ih =>
      rw [readFormsFrom, readFormFrom]
      split
      · rfl
      · rfl
      · rename_i next hopen htake
        exact ih (ReadState.not_isDone_of_ne hopen)

/-! ## All forms -/

/-- The forms, each with its tokens, stand one behind another at the start of the tokens. -/
structure FormsAtStart (items : List (List Token × Datum)) (tokens : List Token) : Prop where
  derived : ∀ item ∈ items, Derives item.1 item.2
  start : items.flatMap Prod.fst <+: tokens

namespace FormsAtStart

variable {items : List (List Token × Datum)} {tokens taken rest : List Token} {d : Datum}

theorem nil (tokens : List Token) : FormsAtStart [] tokens := ⟨by simp, List.nil_prefix⟩

theorem cons (h : FormsAtStart items rest) (hd : Derives taken d) :
    FormsAtStart ((taken, d) :: items) (taken ++ rest) :=
  ⟨List.forall_mem_cons.2 ⟨hd, h.derived⟩, (List.prefix_append_right_inj taken).2 h.start⟩

/-- Behind the form that stands first, the others stand at the start of what is left. -/
theorem tail (h : FormsAtStart ((taken, d) :: items) (taken ++ rest)) : FormsAtStart items rest :=
  ⟨(List.forall_mem_cons.1 h.derived).2, (List.prefix_append_right_inj taken).1 h.start⟩

theorem first {item : List Token × Datum} (h : FormsAtStart (item :: items) tokens) :
    Derives item.1 item.2 ∧ item.1 <+: tokens :=
  ⟨(List.forall_mem_cons.1 h.derived).1, (List.prefix_append _ _).trans h.start⟩

/-- Without a form at the start of the tokens there is no sequence of forms but the empty one. -/
theorem prefix_nil (h : FormsAtStart items tokens)
    (hnone : ∀ taken d, Derives taken d → ¬ taken <+: tokens) : items <+: [] := by
  cases items with
  | nil => exact List.nil_prefix
  | cons item items =>
      obtain ⟨hd, hstart⟩ := h.first
      exact absurd hstart (hnone _ _ hd)

end FormsAtStart

/-- The reader hands out the longest sequence of forms that stands at the start of the tokens, and
ends without a fault exactly if nothing is left behind it. -/
theorem readFormsFrom_longest (tokens : List Token)
    (hchars : ∀ token ∈ tokens, token.kind = .chr → ∃ text, token = .ofChar text) :
    ∃ items, FormsAtStart items tokens ∧
      (∀ others, FormsAtStart others tokens → others <+: items) ∧
      (readFormsFrom none .start tokens).forms = items.map Prod.snd ∧
      ((readFormsFrom none .start tokens).fault = none ↔ tokens = items.flatMap Prod.fst) := by
  rw [readFormsFrom_eq none id]
  rcases readFormFrom_cases tokens hchars with
    ⟨d, taken, rest, hread, rfl, hd⟩ | ⟨hread, rfl⟩ | ⟨fault, rest, hread, hne, hnone⟩
  · have hless : rest.length < (taken ++ rest).length := by
      have hpos : 0 < taken.length := List.length_pos_iff.2 hd.ne_nil
      rw [List.length_append]
      omega
    obtain ⟨items, hitems, hlongest, hforms, hfault⟩ := readFormsFrom_longest rest
      fun token htoken => hchars token (List.mem_append_right _ htoken)
    rw [hread]
    refine ⟨(taken, d) :: items, hitems.cons hd, ?_, by simp [hforms], by simp [hfault]⟩
    -- another sequence starts with the same form, and goes on in what that form leaves
    intro others hothers
    cases others with
    | nil => exact List.nil_prefix
    | cons item others =>
        obtain ⟨hd', hstart'⟩ := hothers.first
        obtain ⟨rfl, rfl⟩ := hd.unique hd' (List.prefix_append _ _) hstart'
        exact (List.prefix_cons_inj _).2 (hlongest others hothers.tail)
  · rw [hread]
    refine ⟨[], .nil [], fun others hothers => ?_, rfl, by simp⟩
    exact hothers.prefix_nil fun taken d hd hstart => hd.ne_nil (List.prefix_nil.1 hstart)
  · rw [hread]
    refine ⟨[], .nil tokens, fun others hothers => hothers.prefix_nil hnone, rfl, ?_⟩
    simpa using hne
termination_by tokens.length

namespace TokenStream

/-- Reading one form of a stream is reading one form of its unread tokens. -/
theorem readForm_eq (stream : TokenStream) :
    stream.readForm.1 = (readFormFrom stream.fault .start stream.unread).1 ∧
      stream.readForm.2.unread = (readFormFrom stream.fault .start stream.unread).2 := by
  rw [readForm]
  split
  · rename_i fault tokens hread
    rw [hread]
    exact ⟨rfl, rfl⟩
  · rename_i form tokens hread
    rw [hread]
    exact ⟨rfl, rfl⟩

end TokenStream

theorem Token.eq_ofChar {token : Token} (hkind : token.kind = .chr)
    (htext : token.text.toList.head? = some '\\') : ∃ text, token = .ofChar text := by
  rcases token with ⟨kind, text⟩
  cases hkind
  obtain ⟨letters, hletters⟩ := List.head?_eq_some_iff.1 htext
  refine ⟨String.ofList letters, ?_⟩
  rw [Token.ofChar, String.toList_ofList, ← hletters, String.ofList_toList]

/-- **The reader accepts exactly the grammar.** Of tokens whose characters start with a backslash it
reads one form exactly if a prefix of them derives an object, and leaves what follows that prefix;
there is at most one such prefix. At the end of the tokens it gives none, and otherwise a fault.
Reading on gives the longest sequence of forms at the start of the tokens, and ends without a fault
exactly if no token is left behind them. -/
theorem TokenStream.readForm_eq_ok_iff_derives (tokens : List Token)
    (hchars : ∀ token ∈ tokens, token.kind = .chr → token.text.toList.head? = some '\\') :
    (∀ d rest, ((ofTokens tokens).readForm.1 = .ok (some d) ∧
        (ofTokens tokens).readForm.2.unread = rest) ↔
      ∃ taken, tokens = taken ++ rest ∧ Derives taken d) ∧
    (∀ taken taken' d d', Derives taken d → Derives taken' d' → taken <+: tokens →
      taken' <+: tokens → taken = taken' ∧ d = d') ∧
    ((ofTokens tokens).readForm.1 = .ok none ↔ tokens = []) ∧
    ((∃ fault, (ofTokens tokens).readForm.1 = .error fault) ↔
      tokens ≠ [] ∧ ∀ taken d, Derives taken d → ¬ taken <+: tokens) ∧
    ∃ items, FormsAtStart items tokens ∧
      (∀ others, FormsAtStart others tokens → others <+: items) ∧
      (ofTokens tokens).readForms.1 = items.map Prod.snd ∧
      ((ofTokens tokens).readForms.2.1 = none ↔ tokens = items.flatMap Prod.fst) := by
  have hchars' : ∀ token ∈ tokens, token.kind = .chr → ∃ text, token = .ofChar text :=
    fun token htoken hkind => Token.eq_ofChar hkind (hchars token htoken hkind)
  obtain ⟨houtcome, hunread⟩ := readForm_eq (ofTokens tokens)
  have hcases := readFormFrom_cases tokens hchars'
  have hstream : readFormFrom (ofTokens tokens).fault .start (ofTokens tokens).unread =
      readFormFrom none .start tokens := rfl
  rw [hstream] at houtcome hunread
  rw [houtcome, hunread]
  refine ⟨fun d rest => ⟨?_, ?_⟩, fun taken taken' d d' hd hd' => hd.unique hd', ?_, ?_,
    readFormsFrom_longest tokens hchars'⟩
  · rintro ⟨hform, rfl⟩
    rcases hcases with ⟨d', taken, rest, hread, htokens, hd⟩ | ⟨hread, -⟩ | ⟨fault, rest, hread, -⟩
    · rw [hread] at hform ⊢
      cases hform
      exact ⟨taken, htokens, hd⟩
    · rw [hread] at hform
      cases hform
    · rw [hread] at hform
      cases hform
  · rintro ⟨taken, rfl, hd⟩
    rw [readFormFrom_of_derives none hd]
    exact ⟨rfl, rfl⟩
  · rcases hcases with ⟨d, taken, rest, hread, rfl, hd⟩ | ⟨hread, rfl⟩ | ⟨fault, rest, hread, hne, -⟩
    · simp [hread, hd.ne_nil]
    · simp [hread]
    · simp [hread, hne]
  · rcases hcases with ⟨d, taken, rest, hread, rfl, hd⟩ | ⟨hread, rfl⟩ |
      ⟨fault, rest, hread, hne, hnone⟩
    · have hform : ¬ ∀ taken' d', Derives taken' d' → ¬ taken' <+: taken ++ rest :=
        fun hnone => hnone taken d hd (List.prefix_append _ _)
      simp [hread, hform]
    · simp [hread]
    · rw [hread]
      exact ⟨fun _ => ⟨hne, hnone⟩, fun _ => ⟨fault, rfl⟩⟩

/-- In `(a '. . b) \c` the quoted dot is an element, the next dot the mark before the tail; nothing
but the list is a form at the start. -/
theorem TokenStream.readForm_eq_ok_iff_derives_quoted_dot :
    let form : List Token := [.opening, .ofSymbol "a", ⟨.quote, "'"⟩, .dot, .dot, .ofSymbol "b",
      .closing]
    let d : Datum := .ofListTail [.sym "a", .ofList [.sym "quote", .sym "."]] (.sym "b")
    (∀ token ∈ form ++ [.ofChar "c"], token.kind = .chr → token.text.toList.head? = some '\\') ∧
      Derives form d ∧
      ∀ taken d', Derives taken d' → taken <+: form ++ [.ofChar "c"] → taken = form ∧ d' = d := by
  intro form d
  have hchars : ∀ token ∈ form ++ [.ofChar "c"],
      token.kind = .chr → token.text.toList.head? = some '\\' := by decide
  obtain ⟨hiff, hunique, -⟩ := readForm_eq_ok_iff_derives (form ++ [.ofChar "c"]) hchars
  obtain ⟨taken, htokens, hd⟩ := (hiff d [.ofChar "c"]).1 ⟨rfl, rfl⟩
  rw [← List.append_cancel_right htokens] at hd
  refine ⟨hchars, hd, fun taken d' hd' hstart => ?_⟩
  exact hunique taken form d' d hd' hd hstart (List.prefix_append _ _)

end BelLisp
