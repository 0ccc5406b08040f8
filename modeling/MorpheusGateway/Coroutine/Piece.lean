/-
# Coroutines without an await

Some methods never give control away: everything they read and write happens in one
piece.  `Ends S t c Q s` says that the coroutine `c`, started in `s`, is one, and that
whichever of its operations fail, its outcome and the state it leaves satisfy `Q`.

It is `wp` of the contract that allows everything but an await, so the rules of
`Contract` apply to it.  `Returns S t c failed s` is `wp` of the same contract with a
control point that remembers whether an operation failed: without one, `c` returns.
-/

import MorpheusGateway.Coroutine.Contract

namespace MorpheusGateway
namespace Contract

variable {σ Ev κ ι ρ π δ ε α : Type}

/-- Everything but an await is in order. -/
def piece : Contract σ Ev κ ι ρ π Unit where
  enter _ := ()
  next _ _ := ()
  site _ := none
  ok _ _ _
    | .park _ => False
    | _ => True
  grows _ _ := True

/-- `c` ends without an await, and its outcome and final state satisfy `Q`. -/
def Ends (S : System σ Ev κ ι ρ π δ) (t : ℕ) (c : Coro σ Ev κ ι ρ ε α)
    (Q : Except ε α → σ → Prop) (s : σ) : Prop :=
  piece.wp S t c (fun a _ => Q (.ok a)) (fun e _ => Q (.error e)) () s

variable {S : System σ Ev κ ι ρ π δ} {t : ℕ} {s : σ}

/-- There is nothing to remember. -/
@[simp] theorem piece_next (pc : Unit) (a : Entry Ev κ ι ρ π) :
    (piece : Contract σ Ev κ ι ρ π Unit).next pc a = () := rfl

/-- **Consequence** for pieces. -/
theorem Ends.mono {c : Coro σ Ev κ ι ρ ε α} {Q Q' : Except ε α → σ → Prop} (h : Ends S t c Q s)
    (hQ : ∀ r s', Q r s' → Q' r s') : Ends S t c Q' s :=
  wp_mono (fun _ _ => hQ _) (fun _ _ => hQ _) c h

/-- Everything but an await is in order, and a failed operation is remembered. -/
def watched : Contract σ Ev κ ι ρ π Bool where
  enter _ := false
  next failed
    | .toss _ b => failed || b
    | _ => failed
  site _ := none
  ok _ _ _
    | .park _ => False
    | _ => True
  grows _ _ := True

/-- `c` ends without an await and raises only after an operation failed; `failed` is whether
one had before. -/
def Returns (S : System σ Ev κ ι ρ π δ) (t : ℕ) (c : Coro σ Ev κ ι ρ ε α) (failed : Bool)
    (s : σ) : Prop :=
  watched.wp S t c (fun _ _ _ => True) (fun _ b _ => b = true) failed s

/-- Every event is in order. -/
@[simp] theorem watched_ok (b : Bool) (e : Ev) :
    (watched : Contract σ Ev κ ι ρ π Bool).ok t b s (.emit e) ↔ True := Iff.rfl

/-- An event is no failure. -/
@[simp] theorem watched_emit (b : Bool) (e : Ev) :
    (watched : Contract σ Ev κ ι ρ π Bool).next b (.emit e) = b := rfl

/-- A failed operation is remembered. -/
@[simp] theorem watched_toss (b fails : Bool) (q : κ) :
    (watched : Contract σ Ev κ ι ρ π Bool).next b (.toss q fails) = (b || fails) := rfl

/-- Pieces that return can be put in sequence. -/
theorem Returns.bind {β : Type} {c : Coro σ Ev κ ι ρ ε α} {f : α → Coro σ Ev κ ι ρ ε β} {b : Bool}
    (h : Returns S t c b s) (hf : ∀ a b' s', Returns S t (f a) b' s') :
    Returns S t (c >>= f) b s :=
  (wp_bind' c).2 (wp_mono (fun a b' s' _ => hf a b' s') (fun _ _ _ he => he) c h)

end Contract
end MorpheusGateway
