import BelLisp.Context
import BelLisp.Trace

/-!
# Actions

An evaluation step reads and changes a context, may fail, and reports what it does. What it did
before failing stays done: a run that fails still has a context. An action is such a step under a
bounded amount of fuel, and has no run if the fuel does not suffice.
-/

set_option autoImplicit false

namespace BelLisp

/-- What a run leaves: a value or a fault, the context after it, and its reports. -/
structure Run (ε α : Type) where
  outcome : Except ε α
  context : Context
  trace : Trace

/-- A step of evaluation. There is no run if the fuel does not suffice. -/
def Action (α : Type) : Type := Context → Option (Run Fault α)

namespace Action

variable {α β : Type}

/-- The action that only has a value. -/
def pure (value : α) : Action α := fun ctx => some ⟨.ok value, ctx, .none⟩

/-- Goes on with the value of an action, in the context it left; a fault ends the run. -/
def bind (action : Action α) (next : α → Action β) : Action β := fun ctx =>
  match action ctx with
  | none => none
  | some ⟨.error fault, ctx', trace⟩ => some ⟨.error fault, ctx', trace⟩
  | some ⟨.ok value, ctx', trace⟩ =>
    match next value ctx' with
    | none => none
    | some run => some { run with trace := trace ++ run.trace }

instance : Monad Action where
  pure := pure
  bind := bind

/-- The action that fails. -/
def fail (fault : Fault) : Action α := fun ctx => some ⟨.error fault, ctx, .none⟩

/-- The action that has the value or the fault of a computation. -/
def lift (result : Except Fault α) : Action α := fun ctx => some ⟨result, ctx, .none⟩

/-- The action that reports. -/
def report (event : Event) : Action Unit := fun ctx => some ⟨.ok (), ctx, .event event⟩

/-- The action that answers from the context. -/
def ask (question : Context → α) : Action α := fun ctx => some ⟨.ok (question ctx), ctx, .none⟩

/-- The action that changes the context. -/
def change (f : Context → Context) : Action Unit := fun ctx => some ⟨.ok (), f ctx, .none⟩

/-- The action whose fuel does not suffice. -/
def starve : Action α := fun _ => none

/-- One level of evaluation: refused at the limit, and left again however the inner action ends. -/
def nested (action : Action α) : Action α := fun ctx =>
  if ctx.limit ≤ ctx.depth then some ⟨.error (.tooDeep ctx.limit), ctx, .none⟩
  else
    match action { ctx with depth := ctx.depth + 1 } with
    | none => none
    | some run =>
      some { run with context := { run.context with depth := run.context.depth - 1 } }

end Action

end BelLisp
