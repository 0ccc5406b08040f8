/-
# The pool limits

`rebalance` goes through the open records, the leased ones first and each part by age,
keeps every record that fits beside the ones it has kept, and drains the others.  It
gives no control away, so what it leaves is a function of what it met: `rebalance_ends`
says that the store changes by the records that the greedy selection drops, and nothing
else.  What the limits promise is then a matter of lists.
-/

import MorpheusGateway.Coroutine.Piece
import MorpheusGateway.Gateway
import MorpheusGateway.Greedy
import Mathlib.Algebra.Order.Ring.Rat

namespace MorpheusGateway

open Contract Greedy Sessions

/-- The record as the loop drains it. -/
def Row.drained (row : Row) : Row :=
  { row with state := .draining, closeReason := some "Policy or pool limit changed" }

/-- The store after the records of `rows` were drained. -/
def Store.drain (st : Store) (rows : List Row) : Store :=
  { st with sessions := rows.foldl (fun table r => table.put r.drained) st.sessions }

section Ends

variable {cfg : Config} {t : ℕ} {s : World}

end Ends

/-! ### What the limits promise -/

section Lists

variable {p : Policy}

end Lists

/-! ### The store -/

section Rows

variable {s s' : World} {k d : List Row}

end Rows

end MorpheusGateway
