/-
# What is dispatched

A chat request is sent to the provider in the piece that the chain read of its session
began, so what that piece checked holds when it does: `dispatch_admitted` collects it.

Two things are read earlier.  The requested name is resolved once by the request and its
ID a second time by `acquire`, under a policy that may be another; it finds the same model
unless an enabled model's alias is the ID in another letter case.  And the copy of the record that the chain read
confirms is older than the record that is leased.  `LeavesLent` is what the run has to
give for both; `not_dispatchAdmitted` breaks the first.
-/

import MorpheusGateway.Policies
import MorpheusGateway.Protocol.Runs

namespace MorpheusGateway

open Contract Sessions

variable {cfg : Config} {C : ItemRule}

/-- The record stored under the ID of `r`, if there is one, is of the same session. -/
def Agrees (st : Store) (r : Row) : Prop :=
  ∀ q, st.sessions.get r.id = some q → SameSession r q ∧ q.chainId = r.chainId

/-- A record agrees on as long as others keep its session. -/
theorem Agrees.apply {s : World} {t : ℕ} {e : Event} {r : Row} (h : Agrees s.store r)
    (he : ∀ w row, e.stored = some (w, row) → row.id = r.id →
      SameSession r row ∧ row.chainId = r.chainId) : Agrees (s.apply t e).store r := by
  intro q hq
  obtain ⟨hq, hid⟩ := Table.get_eq_some.1 hq
  rcases mem_rows_apply hq with ⟨hq, -⟩ | ⟨w, hw⟩
  · exact h q (Table.get_eq_some.2 ⟨hq, hid⟩)
  · exact he w q hw hid

end MorpheusGateway
