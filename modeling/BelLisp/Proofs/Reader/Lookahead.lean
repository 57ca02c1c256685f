import BelLisp.Reader.TokenStream

/-!
# Looking ahead

A token stream can be asked for its next token in two ways: a peek leaves the token where it is, and
an advance takes it. A token that was looked at waits outside of those that are still pending, but no
call can tell: what a call answers and what it leaves depend on the unread tokens and on the fault
behind them alone (`TokenStream.call_of_unread_cons`, `TokenStream.call_of_unread_nil`).

So after any calls, in any order, the state of the stream is known from how many of them were
advances (`TokenStream.stands_after`). The main statement is `TokenStream.lookahead_is_transparent`:
the next answer is the token with this number; beyond the last token it is the fault, if no call has
come there before, and otherwise the end.
-/

set_option autoImplicit false

namespace BelLisp.TokenStream

/-- The two ways to ask for the next token. -/
inductive Call where
  | peek
  | advance
deriving DecidableEq

/-- The answer to a call, and the stream after it. -/
def call (stream : TokenStream) : Call → Except ReadFault (Option Token) × TokenStream
  | .peek => stream.peek
  | .advance => stream.advance

/-- The stream after calls in order, whatever they have answered. -/
def after (stream : TokenStream) (calls : List Call) : TokenStream :=
  calls.foldl (fun stream c => (stream.call c).2) stream

/-- The answers to calls in order. -/
def answers (stream : TokenStream) : List Call → List (Except ReadFault (Option Token))
  | [] => []
  | c :: calls => (stream.call c).1 :: (stream.call c).2.answers calls

/-! ## One call -/

section Calls

variable {stream : TokenStream}

/-- While there are unread tokens every call answers the first of them. A peek sets it aside, an
advance takes it away. -/
theorem call_of_unread_cons {token : Token} {tokens : List Token}
    (h : stream.unread = token :: tokens) (c : Call) :
    stream.call c = (.ok (some token),
      ⟨if c = .peek then some token else none, tokens, stream.fault⟩) := by
  rcases stream with ⟨lookahead, pending, fault⟩
  cases lookahead with
  | none =>
      obtain rfl : pending = token :: tokens := h
      cases c <;> rfl
  | some first =>
      obtain ⟨rfl, rfl⟩ := List.cons.inj h
      cases c <;> rfl

/-- When all tokens are read, every call answers the fault that is left, and uses it up. -/
theorem call_of_unread_nil (h : stream.unread = []) (c : Call) :
    stream.call c = (match stream.fault with
      | some fault => .error fault
      | none => .ok none, ⟨none, [], none⟩) := by
  rcases stream with ⟨lookahead, pending, fault⟩
  obtain ⟨hlookahead, rfl⟩ := List.append_eq_nil_iff.1 h
  obtain rfl : lookahead = none := Option.toList_eq_nil_iff.1 hlookahead
  cases fault <;> cases c <;> rfl

/-- A call cannot tell where the unread tokens are kept. -/
theorem call_congr {other : TokenStream} (hunread : other.unread = stream.unread)
    (hfault : other.fault = stream.fault) (c : Call) : other.call c = stream.call c := by
  cases h : stream.unread with
  | nil => rw [call_of_unread_nil h, call_of_unread_nil (hunread.trans h), hfault]
  | cons token tokens =>
      rw [call_of_unread_cons h, call_of_unread_cons (hunread.trans h), hfault]

theorem answers_congr {other : TokenStream} (hunread : other.unread = stream.unread)
    (hfault : other.fault = stream.fault) (calls : List Call) :
    other.answers calls = stream.answers calls := by
  cases calls with
  | nil => rfl
  | cons c calls => rw [answers, answers, call_congr hunread hfault c]

/-- A peek answers what an advance in its place would. -/
theorem peek_eq_advance (stream : TokenStream) : stream.peek.1 = stream.advance.1 := by
  show (stream.call .peek).1 = (stream.call .advance).1
  cases h : stream.unread with
  | nil => rw [call_of_unread_nil h, call_of_unread_nil h]
  | cons token tokens => rw [call_of_unread_cons h, call_of_unread_cons h]

/-- A peek that does not raise the fault changes no later answer. -/
theorem answers_peek {answer : Option Token} (h : stream.peek.1 = .ok answer)
    (calls : List Call) : stream.peek.2.answers calls = stream.answers calls := by
  have hpeek : stream.peek = stream.call .peek := rfl
  rw [hpeek] at h ⊢
  cases hunread : stream.unread with
  | cons token tokens =>
      have hsame : unread ⟨some token, tokens, stream.fault⟩ = stream.unread := hunread.symm
      rw [call_of_unread_cons hunread]
      exact answers_congr hsame rfl calls
  | nil =>
      rw [call_of_unread_nil hunread] at h ⊢
      cases hfault : stream.fault with
      | some fault =>
          rw [hfault] at h
          cases h
      | none =>
          have hsame : unread ⟨none, [], none⟩ = stream.unread := hunread.symm
          exact answers_congr hsame hfault.symm calls

/-- At the end every call answers that there is nothing. -/
theorem answers_at_end (calls : List Call) :
    answers ⟨none, [], none⟩ calls = List.replicate calls.length (.ok none) := by
  induction calls with
  | nil => rfl
  | cons c calls ih =>
      have hend : call ⟨none, [], none⟩ c = (.ok none, ⟨none, [], none⟩) :=
        call_of_unread_nil rfl c
      rw [answers, hend, ih]
      rfl

/-- After a call that raises the fault the stream is at its end. -/
theorem answers_of_raised {c : Call} {fault : ReadFault} (h : (stream.call c).1 = .error fault)
    (calls : List Call) :
    (stream.call c).2.answers calls = List.replicate calls.length (.ok none) := by
  cases hunread : stream.unread with
  | cons token tokens =>
      rw [call_of_unread_cons hunread] at h
      cases h
  | nil =>
      rw [call_of_unread_nil hunread]
      exact answers_at_end calls

end Calls

/-! ## Calls in sequence -/

/-- One of the calls has wanted a token behind the last one: all had been taken before it. -/
def Overruns (tokens : List Token) (calls : List Call) : Prop :=
  ∃ earlier c later, calls = earlier ++ c :: later ∧ tokens.length ≤ earlier.count .advance

section Sequence

variable {tokens : List Token} {fault : Option ReadFault}

theorem not_overruns_nil : ¬ Overruns tokens [] := by
  rintro ⟨earlier, c, later, h, -⟩
  simp at h

/-- If any call has wanted too much, the last one has. -/
theorem overruns_append_singleton {calls : List Call} {c : Call} :
    Overruns tokens (calls ++ [c]) ↔ tokens.length ≤ calls.count .advance := by
  constructor
  · rintro ⟨earlier, c', later, hcalls, hlength⟩
    have hle : earlier.length ≤ calls.length := by
      have hlengths := congrArg List.length hcalls
      simp only [List.length_append, List.length_cons, List.length_nil] at hlengths
      omega
    -- the calls before the one that overruns are among those before the last
    have htake : calls.take earlier.length = earlier := by
      rw [← List.take_append_of_le_length hle, hcalls, List.take_left]
    rw [← htake] at hlength
    exact Nat.le_trans hlength ((List.take_sublist _ _).count_le _)
  · intro hlength
    exact ⟨calls, c, [], rfl, hlength⟩

theorem length_le_of_overruns {calls : List Call} (h : Overruns tokens calls) :
    tokens.length ≤ calls.count .advance := by
  obtain ⟨earlier, c, later, rfl, hlength⟩ := h
  exact Nat.le_trans hlength ((List.sublist_append_left _ _).count_le _)

/-- Where a stream stands after calls. The unread tokens are those that were not taken. Of these the
next is set aside if the last call was a peek, and otherwise none is. The fault is there until a call
has wanted a token behind the last one. -/
structure Stands (tokens : List Token) (fault : Option ReadFault) (calls : List Call)
    (stream : TokenStream) : Prop where
  unread : stream.unread = tokens.drop (calls.count .advance)
  lookahead : stream.lookahead =
    if calls.getLast? = some .peek then tokens[calls.count .advance]? else none
  fault_of_not_overruns : ¬ Overruns tokens calls → stream.fault = fault
  fault_of_overruns : Overruns tokens calls → stream.fault = none

theorem stands_start (tokens : List Token) (fault : Option ReadFault) :
    Stands tokens fault [] ⟨none, tokens, fault⟩ where
  unread := rfl
  lookahead := rfl
  fault_of_not_overruns _ := rfl
  fault_of_overruns h := absurd h not_overruns_nil

/-- One call leads from where the stream stands to where it stands with this call. -/
theorem Stands.call {calls : List Call} {stream : TokenStream}
    (h : Stands tokens fault calls stream) (c : Call) :
    Stands tokens fault (calls ++ [c]) (stream.call c).2 := by
  have hunread := h.unread
  cases hdrop : tokens.drop (calls.count .advance) with
  | nil =>
      -- all tokens were taken before this call, so it overruns
      have hover : Overruns tokens (calls ++ [c]) :=
        overruns_append_singleton.2 (List.drop_eq_nil_iff.1 hdrop)
      have hlength := length_le_of_overruns hover
      rw [call_of_unread_nil (hunread.trans hdrop)]
      refine ⟨(List.drop_eq_nil_iff.2 hlength).symm, ?_, fun hnot => absurd hover hnot, fun _ => rfl⟩
      rw [List.getElem?_eq_none hlength, ite_self]
  | cons token rest =>
      have htoken : tokens[calls.count .advance]? = some token := by
        rw [← List.head?_drop, hdrop]
        rfl
      have hlt : calls.count .advance < tokens.length := (List.getElem?_eq_some_iff.1 htoken).1
      have hover : ¬ Overruns tokens (calls ++ [c]) := by
        rw [overruns_append_singleton]
        omega
      have hfault : stream.fault = fault := by
        apply h.fault_of_not_overruns
        intro hoverruns
        have hlength := length_le_of_overruns hoverruns
        omega
      rw [call_of_unread_cons (hunread.trans hdrop)]
      cases c with
      | peek =>
          have hcount : (calls ++ [Call.peek]).count .advance = calls.count .advance := by simp
          refine ⟨?_, ?_, fun _ => hfault, fun hoverruns => absurd hoverruns hover⟩
          · rw [hcount, hdrop]
            rfl
          · rw [hcount, htoken]
            simp
      | advance =>
          have hcount : (calls ++ [Call.advance]).count .advance = calls.count .advance + 1 := by simp
          refine ⟨?_, ?_, fun _ => hfault, fun hoverruns => absurd hoverruns hover⟩
          · rw [hcount, ← List.drop_drop, hdrop]
            rfl
          · simp

/-- Calls in any order lead to where the number of advances among them says. -/
theorem stands_after {calls : List Call} {stream : TokenStream}
    (h : Stands tokens fault calls stream) (more : List Call) :
    Stands tokens fault (calls ++ more) (stream.after more) := by
  -- each further call joins those that were made, so the hypothesis is about all of them
  induction more generalizing calls stream with
  | nil =>
      rw [List.append_nil]
      exact h
  | cons c more ih =>
      have hmore := ih (h.call c)
      rw [List.append_assoc] at hmore
      exact hmore

/-- The next answer, while there are tokens that were not taken. -/
theorem Stands.answer_of_token {calls : List Call} {stream : TokenStream} {token : Token}
    (h : Stands tokens fault calls stream) (htoken : tokens[calls.count .advance]? = some token)
    (c : Call) : (stream.call c).1 = .ok (some token) := by
  obtain ⟨hlt, rfl⟩ := List.getElem?_eq_some_iff.1 htoken
  rw [call_of_unread_cons (h.unread.trans (List.drop_eq_getElem_cons hlt))]

/-- The next answer, when all tokens were taken. -/
theorem Stands.answer_at_end {calls : List Call} {stream : TokenStream}
    (h : Stands tokens fault calls stream) (hlength : tokens.length ≤ calls.count .advance)
    (c : Call) : (stream.call c).1 = match stream.fault with
      | some raised => .error raised
      | none => .ok none := by
  rw [call_of_unread_nil (h.unread.trans (List.drop_eq_nil_iff.2 hlength))]

/-- **Looking ahead is transparent.** Take any tokens, with a fault behind them or none, and any
calls in any order. Whichever call comes next, it answers the token whose number is that of the
advances so far, so that the advances take the tokens in order and a peek answers what an advance
would. Behind the last token it raises the fault, if there is one and no call has come there before;
from then on every call answers that there is nothing. No more than the next token is ever set aside,
and only by a peek. A peek that raises nothing changes no answer to any later calls. -/
theorem lookahead_is_transparent (tokens : List Token) (fault : Option ReadFault)
    (calls : List Call) :
    let stream := after ⟨none, tokens, fault⟩ calls
    let taken := calls.count .advance
    (∀ c,
      (∀ token, tokens[taken]? = some token → (stream.call c).1 = .ok (some token)) ∧
      (tokens.length ≤ taken → ¬ Overruns tokens calls → (stream.call c).1 = match fault with
        | some raised => .error raised
        | none => .ok none) ∧
      (Overruns tokens calls → (stream.call c).1 = .ok none) ∧
      ∀ raised, (stream.call c).1 = .error raised → ∀ more,
        (stream.call c).2.answers more = List.replicate more.length (.ok none)) ∧
    stream.unread = tokens.drop taken ∧
    stream.lookahead = (if calls.getLast? = some .peek then tokens[taken]? else none) ∧
    stream.peek.1 = stream.advance.1 ∧
    ∀ answer, stream.peek.1 = .ok answer → ∀ more,
      stream.peek.2.answers more = stream.answers more := by
  intro stream taken
  have hstands : Stands tokens fault calls stream := stands_after (stands_start tokens fault) calls
  refine ⟨fun c => ⟨?_, ?_, ?_, ?_⟩, hstands.unread, hstands.lookahead, ?_, ?_⟩
  · intro token htoken
    exact hstands.answer_of_token htoken c
  · intro hlength hover
    rw [hstands.answer_at_end hlength c, hstands.fault_of_not_overruns hover]
  · intro hover
    rw [hstands.answer_at_end (length_le_of_overruns hover) c, hstands.fault_of_overruns hover]
  · intro raised hraised more
    exact answers_of_raised hraised more
  · exact peek_eq_advance stream
  · intro answer hanswer more
    exact answers_peek hanswer more

end Sequence

end BelLisp.TokenStream
