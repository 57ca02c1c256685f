import BelLisp.Reader.Form

/-!
# The reader token by token

Inside one form the reader goes from state to state, one token at a time, until it refuses a token
or completes the form. `ReadState.Reads` and `ReadState.Rejects` say so for a sequence of tokens,
and `ReadState.Comes` joins the two: it takes the state that is reached, or none if a token is
refused. What they say of one form carries over to the reading of all forms
(`readFormsFrom_of_reads`, `fault_of_rejects`). No token leads back to the start, so tokens that can
be read to their end have a form, unless there are none (`eq_nil_of_forms_eq_nil`).
-/

set_option autoImplicit false

namespace BelLisp

namespace ReadState

/-- The outermost form is complete. -/
def IsDone : ReadState → Prop
  | .done _ => True
  | _ => False

theorem not_isDone_of_ne {state : ReadState} (h : ∀ d, state = .done d → False) :
    ¬ state.IsDone := by
  cases state with
  | done d => exact (h d rfl).elim
  | _ => exact id

/-- Only behind a complete form does the end of the tokens give an object. -/
theorem isDone_of_atEnd {state : ReadState} {d : Datum} (h : state.atEnd = .ok (some d)) :
    state.IsDone := by
  fun_cases atEnd state with
  | case6 => trivial
  | _ => simp [atEnd] at h

/-- Only before a form is the end of the tokens no fault and gives no object. -/
theorem eq_start_of_atEnd {state : ReadState} (h : state.atEnd = .ok none) : state = .start := by
  fun_cases atEnd state with
  | case1 => rfl
  | _ => simp [atEnd] at h

theorem deliver_ne_start (d : Datum) (frames : List Frame) : deliver d frames ≠ .start := by
  induction frames generalizing d with
  | nil => simp [deliver, start]
  | cons frame frames ih =>
      cases frame with
      | quoting mark => exact ih (quotation d)
      | items elements => simp [deliver, start]
      | tail elements => simp [deliver, start]

/-- No token leads the reader back to where it started. -/
theorem take_ne_start {state next : ReadState} {token : Token} (h : state.take token = .ok next) :
    next ≠ .start := by
  rcases token with ⟨kind, text⟩
  rcases state with frames | ⟨elements, tail, frames⟩ | d
  · cases kind with
    | sym =>
        simp only [take] at h
        split at h
        · split at h
          · cases h
            simp [start]
          · cases h
            exact deliver_ne_start _ _
        · cases h
          exact deliver_ne_start _ _
    | chr =>
        cases h
        exact deliver_ne_start _ _
    | quote | openBracket =>
        cases h
        simp [start]
    | closeBracket =>
        simp only [take] at h
        split at h
        · cases h
          exact deliver_ne_start _ _
        · cases h
    | other name => cases h
  · simp only [take] at h
    split at h
    · cases h
      exact deliver_ne_start _ _
    · cases h
  · cases h
    simp [start]

/-- The reader takes the tokens one after another. It does not go on behind a complete form. -/
inductive Reads : ReadState → List Token → ReadState → Prop
  | refl (state : ReadState) : Reads state [] state
  | step {state next last : ReadState} {token : Token} {tokens : List Token} :
      ¬ state.IsDone → state.take token = .ok next → Reads next tokens last →
        Reads state (token :: tokens) last

/-- The reader refuses one of the tokens, and has not completed a form before it. -/
inductive Rejects : ReadState → List Token → Prop
  | here {state : ReadState} {token : Token} {fault : ReadFault} (tokens : List Token) :
      state.take token = .error fault → Rejects state (token :: tokens)
  | later {state next : ReadState} {token : Token} {tokens : List Token} :
      ¬ state.IsDone → state.take token = .ok next → Rejects next tokens →
        Rejects state (token :: tokens)

/-- The tokens lead to the given state, or are refused if there is none. -/
def Comes (state : ReadState) (tokens : List Token) : Option ReadState → Prop
  | some last => state.Reads tokens last
  | none => state.Rejects tokens

variable {state middle last : ReadState} {tokens more : List Token}

theorem Reads.trans (h : state.Reads tokens middle) (h' : middle.Reads more last) :
    state.Reads (tokens ++ more) last := by
  induction h with
  | refl state => exact h'
  | step hdone htake _ ih => exact .step hdone htake (ih h')

theorem Reads.rejects (h : state.Reads tokens middle) (h' : middle.Rejects more) :
    state.Rejects (tokens ++ more) := by
  induction h with
  | refl state => exact h'
  | step hdone htake _ ih => exact .later hdone htake (ih h')

theorem Rejects.append (h : state.Rejects tokens) (more : List Token) :
    state.Rejects (tokens ++ more) := by
  induction h with
  | here tokens htake => exact .here (tokens ++ more) htake
  | later hdone htake _ ih => exact .later hdone htake ih

/-- What comes of tokens in sequence is what comes of the later ones in the state between. -/
theorem Comes.bind {α : Type} {between : Option α} {f : α → ReadState} {g : α → Option ReadState}
    (h : state.Comes tokens (between.map f)) (h' : ∀ a, between = some a → (f a).Comes more (g a)) :
    state.Comes (tokens ++ more) (between.bind g) := by
  cases between with
  | none => exact Rejects.append h more
  | some a =>
      have hmore := h' a rfl
      show state.Comes (tokens ++ more) (g a)
      cases hg : g a with
      | none =>
          rw [hg] at hmore
          exact Reads.rejects h hmore
      | some last =>
          rw [hg] at hmore
          exact Reads.trans h hmore

theorem Comes.step {token : Token} {next : ReadState} {outcome : Option ReadState}
    (hdone : ¬ state.IsDone) (htake : state.take token = .ok next)
    (h : next.Comes tokens outcome) : state.Comes (token :: tokens) outcome := by
  cases outcome with
  | none => exact Rejects.later hdone htake h
  | some last => exact Reads.step hdone htake h

/-- Behind a complete form the reader takes nothing. -/
theorem Reads.eq_of_done {d : Datum} (h : (ReadState.done d).Reads tokens last) :
    tokens = [] ∧ last = .done d := by
  cases h with
  | refl => exact ⟨rfl, rfl⟩
  | step hdone _ _ => exact absurd trivial hdone

theorem not_rejects_done {d : Datum} : ¬ (ReadState.done d).Rejects tokens := by
  intro h
  cases h with
  | here tokens htake => simp [take] at htake
  | later hdone _ _ => exact hdone trivial

end ReadState

/-! ## All forms -/

/-- Tokens that complete a form give it as the first form; the others are read afresh. -/
theorem readFormsFrom_of_reads (scanFault : Option ReadFault) {state : ReadState}
    {tokens : List Token} {d : Datum} (hdone : ¬ state.IsDone) (h : state.Reads tokens (.done d))
    (rest : List Token) :
    readFormsFrom scanFault state (tokens ++ rest) =
      { readFormsFrom scanFault .start rest with
        forms := d :: (readFormsFrom scanFault .start rest).forms } := by
  generalize hlast : ReadState.done d = last at h
  induction h with
  | refl state =>
      subst hlast
      exact absurd trivial hdone
  | @step state next last token tokens _ htake hreads ih =>
      rw [List.cons_append, readFormsFrom, htake]
      rcases next with frames | ⟨elements, tail, frames⟩ | d'
      · exact ih id hlast
      · exact ih id hlast
      · -- the form is complete here, so no token of it is left
        obtain ⟨rfl, hd⟩ := hreads.eq_of_done
        rw [hd] at hlast
        cases hlast
        rfl

/-- Tokens that can be read to their end have a form, unless there are none. -/
theorem eq_nil_of_forms_eq_nil {state : ReadState} {tokens : List Token} (hdone : ¬ state.IsDone)
    (h : (readFormsFrom none state tokens).fault = none) :
    (readFormsFrom none state tokens).forms = [] → tokens = [] ∧ state = .start := by
  induction tokens generalizing state with
  | nil =>
      intro _
      cases hend : state.atEnd with
      | error fault => simp [readFormsFrom, hend] at h
      | ok form =>
          cases form with
          | none => exact ⟨rfl, ReadState.eq_start_of_atEnd hend⟩
          | some d => exact absurd (ReadState.isDone_of_atEnd hend) hdone
  | cons token tokens ih =>
      rw [readFormsFrom] at h ⊢
      split at h
      · cases h
      · intro hforms
        cases hforms
      · -- the reader is inside a form and does not get out of it without one
        rename_i next hopen htake
        intro hforms
        obtain ⟨-, hnext⟩ := ih (ReadState.not_isDone_of_ne hopen) h hforms
        exact absurd hnext (ReadState.take_ne_start htake)

/-- A text whose tokens complete one form and no more has the object of that form. -/
theorem read_of_reads {source : String} {tokens : List Token} {d : Datum}
    (hscan : scan source = ⟨tokens, none⟩) (h : ReadState.start.Reads tokens (.done d)) :
    read source = .ok d := by
  have hforms : readAll source = ⟨[d], none, []⟩ := by
    have hreads := readFormsFrom_of_reads none id h []
    rw [List.append_nil] at hreads
    rw [readAll, hscan, hreads]
    rfl
  simp [read, hforms]

/-- Tokens that are refused end the reading with a fault. -/
theorem fault_of_rejects {scanFault : Option ReadFault} {state : ReadState} {tokens : List Token}
    (h : state.Rejects tokens) : (readFormsFrom scanFault state tokens).fault ≠ none := by
  induction h with
  | here tokens htake =>
      rw [readFormsFrom, htake]
      simp
  | @later state next token tokens _ htake hrejects ih =>
      rw [readFormsFrom, htake]
      rcases next with frames | ⟨elements, tail, frames⟩ | d
      · exact ih
      · exact ih
      · exact absurd hrejects ReadState.not_rejects_done

end BelLisp
