/-
# Coroutines over a shared state

A cooperative scheduler runs one coroutine at a time, and only an `await`
gives control away.  `Coro` is the syntax of such a coroutine as a tree: it
reads the shared state, changes it by named events, meets faults it cannot
foresee (`toss`), and suspends at an await point until the environment answers.
Everything between two awaits is one uninterrupted piece.

The shared state is changed through events only, and a system says what each
event does to it, so a log of events is a log of everything that happened.

Python's `try`/`except`/`finally` are the functions `attempt`, `tryCatch` and
`tryFinally`; `mapError` moves a raised value into a richer error type, which
is how a handler gets hold of the local variables of its `try` block.
-/

import Mathlib.Logic.Function.Basic
import Mathlib.Data.List.Basic

namespace MorpheusGateway

/-- A coroutine that returns an `α` or raises an `ε`.  `σ` is the shared state,
`Ev` the events that change it, `κ` the operations that may fail, `ι` the await
points and `ρ` their answers. -/
inductive Coro (σ Ev κ ι ρ ε α : Type) : Type where
  | ret (a : α)
  | raise (e : ε)
  | read (k : σ → Coro σ Ev κ ι ρ ε α)
  | emit (e : Ev) (k : Coro σ Ev κ ι ρ ε α)
  | toss (q : κ) (k : Bool → Coro σ Ev κ ι ρ ε α)
  | await (i : ι) (k : ρ → Coro σ Ev κ ι ρ ε α)

namespace Coro

variable {σ Ev κ ι ρ ε ε' α β : Type}

/-- Run `f` on what `c` returns. -/
def bind : Coro σ Ev κ ι ρ ε α → (α → Coro σ Ev κ ι ρ ε β) → Coro σ Ev κ ι ρ ε β
  | ret a, f => f a
  | raise e, _ => raise e
  | read k, f => read fun s => (k s).bind f
  | emit e k, f => emit e (k.bind f)
  | toss q k, f => toss q fun b => (k b).bind f
  | await i k, f => await i fun r => (k r).bind f

instance : Monad (Coro σ Ev κ ι ρ ε) where
  pure := ret
  bind := bind

/-- Turn the outcome of `c` into a value: the coroutine that never raises. -/
def attempt : Coro σ Ev κ ι ρ ε α → Coro σ Ev κ ι ρ ε' (Except ε α)
  | ret a => ret (.ok a)
  | raise e => ret (.error e)
  | read k => read fun s => (k s).attempt
  | emit e k => emit e k.attempt
  | toss q k => toss q fun b => (k b).attempt
  | await i k => await i fun r => (k r).attempt

/-- `return` or `raise`, whichever the outcome says. -/
def ofExcept : Except ε α → Coro σ Ev κ ι ρ ε α
  | .ok a => ret a
  | .error e => raise e

/-- Raise `f e` where `c` raises `e`. -/
def mapError (f : ε → ε') (c : Coro σ Ev κ ι ρ ε α) : Coro σ Ev κ ι ρ ε' α :=
  c.attempt.bind fun
    | .ok a => ret a
    | .error e => raise (f e)

/-- `try: c  except e: handler e`. -/
def tryCatch (c : Coro σ Ev κ ι ρ ε α) (handler : ε → Coro σ Ev κ ι ρ ε' α) :
    Coro σ Ev κ ι ρ ε' α :=
  c.attempt.bind fun
    | .ok a => ret a
    | .error e => handler e

/-- `try: c  finally: after`.  What `after` raises replaces the outcome of `c`. -/
def tryFinally (c : Coro σ Ev κ ι ρ ε α) (after : Coro σ Ev κ ι ρ ε Unit) :
    Coro σ Ev κ ι ρ ε α :=
  c.attempt.bind fun r => after.bind fun _ => ofExcept r

/-- The shared state as it is now. -/
def get : Coro σ Ev κ ι ρ ε σ := read ret

/-- Change the shared state by the event `e`. -/
def perform (e : Ev) : Coro σ Ev κ ι ρ ε Unit := emit e (ret ())

/-- Whether the operation `q` fails this time. -/
def fails (q : κ) : Coro σ Ev κ ι ρ ε Bool := toss q ret

/-- Suspend at the await point `i` until it is answered. -/
def suspend (i : ι) : Coro σ Ev κ ι ρ ε ρ := await i ret

/-- What is returned is gone on with. -/
@[simp] theorem ret_bind (a : α) (f : α → Coro σ Ev κ ι ρ ε β) : (ret a).bind f = f a := rfl

/-- Nothing follows a `raise`. -/
@[simp] theorem raise_bind (e : ε) (f : α → Coro σ Ev κ ι ρ ε β) :
    (raise e : Coro σ Ev κ ι ρ ε α).bind f = raise e := rfl

end Coro
end MorpheusGateway
