/-
# Control points

The control point of a task is where it last awaited, what was answered, and what
it holds.  This module also has the predicates on records, answers and lists of
operations in which the protocol is written.
-/

import MorpheusGateway.Gateway

namespace MorpheusGateway

/-! ### Tasks that are remembered -/

/-- Where the memory has the one task of its kind: the opener of a model, the sweep. -/
inductive Slot : Type where
  | opening (model : String)
  | sweep
  deriving DecidableEq

/-- The slot a task is recorded in.  A withdrawal takes that of the sweep. -/
def Work.slot : Work → Option Slot
  | .opener model _ => some (.opening model)
  | .sweep | .treasury => some .sweep
  | _ => none

/-- The task recorded in a slot. -/
def Memory.holder (m : Memory) : Slot → Option ℕ
  | .opening model => m.opening model
  | .sweep => m.sweepTask

/-- No unfinished task is recorded in the slot. -/
def Memory.Free (m : Memory) (k : Slot) : Prop :=
  ∀ h, m.holder k = some h → (m.finished h).isSome = true

/-! ### Control points -/

/-- Where a task is: not started, suspended, going on after an answer, or after the
write that the answer allowed, with the records that the third pass of `reconcile` has
still to judge. -/
inductive Place : Type where
  | fresh
  | parked (i : Site)
  | woken (i : Site) (a : Answer)
  | spent (rest : List Row)

/-- The records that the third pass of `reconcile` has listed and not judged. -/
def Site.listed : Site → List Row
  | .rpcChain (.opening row rest) .. | .receipt (.opening row rest) .. => row :: rest
  | _ => []

/-- The same at a place. -/
def Place.listed : Place → List Row
  | .parked i | .woken i _ => i.listed
  | .spent rest => rest
  | .fresh => []

/-- A control point: the place, and what the task holds.  `task` is what it was spawned
for and has not finished, `restarting` the kind of the operation of a restart with its flag `immediate`.
`claimed` says that it has begun a maintenance and not yet spawned its restart.
`key` is the chat request it has admitted and not yet cleaned up, `cleaning` that its
cleanup has begun, `pledge` the cleanup it was spawned for and has not begun, and
`entrusted` the cleanup it has spawned.  `uuid` is a fresh number drawn in this piece,
`opening` and `withdrawal` the record of an opening or a withdrawal started in it, `begun` a
task with a slot that it has spawned and not yet recorded, and `leaks` and `stuck` say that a store operation failed in a place of `StoreCall` that does
not survive it.  `call` is the chat request the task serves, `rated` that it has entered the bucket of its
key, and `marked` the idempotency record it has started. -/
structure Pc where
  place : Place := .fresh
  lock : Bool := false
  lease : Option RowId := none
  waits : Bool := false
  key : Option (ℕ × String) := none
  cleaning : Bool := false
  task : Option (ℕ × Work) := none
  pledge : Option Cleanup := none
  entrusted : Option (ℕ × Cleanup) := none
  claimed : Bool := false
  restarting : Option (OpKind × Bool) := none
  uuid : Option ℕ := none
  opening : Option RowId := none
  withdrawal : Option ℕ := none
  leaks : Bool := false
  stuck : Bool := false
  call : Option ChatCall := none
  marked : Option (String × String) := none
  begun : Option (ℕ × Work) := none
  rated : Bool := false

namespace Pc

/-- The control point moved to another place; what belongs to the piece is forgotten. -/
def move (pc : Pc) (p : Place) : Pc :=
  { pc with place := p, uuid := none, opening := none, withdrawal := none, begun := none }

/-- The control point after the one write that its answer allowed. -/
def spend (pc : Pc) (rest : List Row) : Pc := { pc.move (.spent rest) with begun := pc.begun }

/-- The control point after an event. -/
def emit (pc : Pc) : Event → Pc
  | .lock => { pc with lock := true }
  | .unlock => { pc with lock := false, uuid := none, opening := none, withdrawal := none }
  | .reserve id => { pc with lease := some id }
  | .unreserve _ => { pc with lease := none }
  | .wait => { pc with waits := true }
  | .unwait => { pc with waits := false }
  | .admitted request key _ => { pc with key := some (request, key), uuid := none }
  | .dismiss _ => { pc with key := none, cleaning := false }
  | .cleaned c => { pc with
      key := some (c.request, c.key), cleaning := true, lease := c.row.map Row.id, pledge := none }
  | .uuid n => { pc with uuid := some n }
  | .spawn handle (.cleanup c) => { pc with
      key := none, lease := none, uuid := none, entrusted := some (handle, c) }
  | .spawn _ (.restart ..) => { pc with uuid := none, claimed := false }
  | .spawn handle (.opener model revision) => { pc with
      uuid := none, begun := some (handle, .opener model revision) }
  | .spawn handle .sweep => { pc with uuid := none, begun := some (handle, .sweep) }
  | .spawn handle .treasury => { pc with uuid := none, begun := some (handle, .treasury) }
  | .spawn _ _ => { pc with uuid := none }
  | .opener .. | .sweepTask _ => { pc with begun := none }
  | .maintenance true => { pc with claimed := true }
  | .maintenance false => { pc with restarting := none }
  | .attempt a => if a.state = .started then { pc with marked := some a.id } else pc
  | .finish .. => { pc with task := none }
  | .rate _ => { pc with rated := true }
  | .put (.openStart ..) row => { pc.spend [] with opening := some row.id }
  | .put .bind _ => pc.spend []
  | .put (.receiptPass _ rest) _ | .put (.receiptPassError _ rest) _ => pc.spend rest
  | .put (.closeIntent _) _ => { pc with uuid := none }
  | .putOperation .withdraw op => { pc with uuid := none, withdrawal := some op.id }
  | .putOperation _ _ => { pc with uuid := none }
  | _ => pc

/-- The control point after a store operation. -/
def toss (pc : Pc) (q : StoreCall) (failed : Bool) : Pc :=
  if failed ∧ (q = .queueRead ∨ q = .handler) then { pc with leaks := true }
  else if failed ∧ q = .restart then { pc with stuck := true }
  else pc

/-- The control point after a log entry. -/
def next (pc : Pc) : LogEntry → Pc
  | .start _ => pc
  | .wake i a => pc.move (.woken i a)
  | .emit e => pc.emit e
  | .toss q b => pc.toss q b
  | .park i => pc.move (.parked i)
  | .stop => pc

/-- The control point a program starts at. -/
def enter : Program → Pc
  | .task handle (.cleanup c) => { task := some (handle, .cleanup c), pledge := some c }
  | .task handle (.restart op immediate applyRating) => {
      task := some (handle, .restart op immediate applyRating)
      restarting := some (op.kind, immediate) }
  | .task handle w => { task := some (handle, w) }
  | .chat call => { call := some call }
  | _ => {}

/-- The await point of a suspended task. -/
def site (pc : Pc) : Option Site :=
  match pc.place with
  | .parked i => some i
  | _ => none

/-- The task waited for the cleanup it spawned. -/
def Joined (pc : Pc) (c : Cleanup) : Prop :=
  ∃ handle, pc.place = .woken (.joinCleanup handle) .done ∧ pc.entrusted = some (handle, c)

end Pc

/-! ### Records -/

/-- The fields of a record that no writer changes. -/
def SameSession (old row : Row) : Prop :=
  row.id = old.id ∧ row.model = old.model ∧ row.provider = old.provider ∧ row.bid = old.bid

/-- A record rewritten with the IDs it had. -/
def Kept (old row : Row) : Prop :=
  SameSession old row ∧ row.chainId = old.chainId ∧ row.closeOperationId = old.closeOperationId

/-- The record is made from the one stored now. -/
def Fresh (s : World) (row : Row) (p : Row → Prop) : Prop :=
  ∃ old, s.row? row.id = some old ∧ Kept old row ∧ p old

/-- The task was woken by the session that it opened being read back. -/
def Place.opened : Place → Bool
  | .woken (.openRead _) _ => true
  | _ => false

/-- The session of the stored record was just read back from the chain. -/
def Place.Obtained (p : Place) (s : World) (row : Row) : Prop :=
  (∃ r a, p = .woken (.openRead r) a ∧ Kept r row) ∧ s.row? row.id = some row ∧
    (row.state = .opened ∨ row.state = .closed)

/-- Where a session was obtained the task was woken by it. -/
theorem Place.Obtained.opened {p : Place} {s : World} {row : Row} (h : p.Obtained s row) :
    p.opened = true := by
  obtain ⟨⟨r, a, rfl, -⟩, -⟩ := h
  rfl

/-- No wallet transaction of a session record but `except_` is unresolved. -/
def ClearRows (s : World) (except_ : Option RowId) : Prop :=
  ∀ r ∈ s.store.sessions.rows, some r.id ≠ except_ → r.state.unresolved = false

/-- No withdrawal is unresolved. -/
def ClearOperations (s : World) : Prop :=
  ∀ op ∈ s.store.operations.rows, op.unresolved = false

/-! ### Answers -/

/-- The label of a raised error. -/
def labelOf {α : Type} : Except Exc α → Option Outcome
  | .error (.gateway g) => some g.outcome
  | _ => none

/-- The session ID an opening POST returned. -/
def postedId (a : Answer) : Option String :=
  match request (.openSession "" 0 0 0) a with
  | .ok data => sessionId? data
  | .error _ => none

/-- The label of the error that the answer is reported as, at the awaits of
`_open` and `_close` from their POST on. -/
def Site.label : Site → Answer → Option Outcome
  | .openPost .., a => labelOf (request (.openSession "" 0 0 0) a)
  | .closePost _, a => labelOf (request (.closeSession "" 0) a)
  | .openRead _, a | .closedRead _, a => labelOf (readSession "" a)
  | _, _ => none

/-- The record whose session is read at an await point. -/
def Site.reads : Site → Option Row
  | .acquireRead row | .openRead row | .closeRead row | .closedRead row | .bindRead row
  | .truthRead row => some row
  | _ => none

/-- The session as the answer to `node.session` shows it, and its `ClosedAt`. -/
def closedAt (a : Answer) : Option ℤ :=
  match readSession "" a with
  | .ok truth => match (item truth "ClosedAt").bind int with
    | .ok n => some n
    | .error _ => none
  | .error _ => none

/-- The drain of a restart has not run out of time before this place. -/
def Place.inTime : Place → Bool
  | .fresh | .woken (.drained _) .done => true
  | _ => false

/-- The task was woken by a page of the node's catalogue. -/
def Place.catalog : Place → Bool
  | .woken (.openModel ..) _ => true
  | _ => false

/-- The chain was just read for this record and reports the session closed. -/
def Place.ReadClosed (p : Place) (id : RowId) : Prop :=
  ∃ i a r n, p = .woken i a ∧ i.reads = some r ∧ r.id = id ∧ closedAt a = some n ∧ n ≠ 0

/-- The journal's answer says that the operation is over and sent nothing. -/
def answersUnsent (a : Answer) : Prop :=
  ∃ progress, helperRequest a = .ok progress ∧ Sessions.journalUnsent progress = true

/-- The transactions that are judged. -/
def Judged.transactions : Judged → Except Exc (List Json)
  | .closing row _ => Sessions.iterate (Sessions.closeTransactions row)
  | .opening row _ => Sessions.openTransactions row.transactions
  | .withdrawal op _ => Sessions.iterate op.transactions

/-- Their hashes. -/
def Judged.hashes (j : Judged) : List String :=
  match j.transactions with
  | .ok txs => txs.map fun tx => (Sessions.transactionHash tx).toStr
  | .error _ => []

/-- The receipts that are known once this one is answered. -/
def receiptsAfter (seen : List (String × Option Json)) (tx : String) (a : Answer) :
    Option (List (String × Option Json)) :=
  match readReceipt a with
  | .ok r => some (seen ++ [(tx, r)])
  | .error _ => none

/-- All judged transactions were just seen to be mined and reverted. -/
def Place.Reverted (p : Place) (j : Judged) : Prop :=
  ∃ seen tx a all, p = .woken (.receipt j seen tx) a ∧ receiptsAfter seen tx a = some all ∧
    Sessions.verdict (all.map Prod.snd) = .ok .failed ∧ all.map Prod.fst = j.hashes

/-! ### What the await points carry -/

/-- The preflight an await of `_open` belongs to. -/
def Site.preflight : Site → Option Preflight
  | .openBids l | .openBid l _ | .openBalances l | .openSupply l _ | .openBudget l _
  | .openStakes l _ _ => some l
  | _ => none

/-- The preflight that an await of `_open` belongs to, at this place. -/
def Place.preflight : Place → Option Preflight
  | .parked i | .woken i _ => i.preflight
  | _ => none

/-- The copy whose chain read `acquire` awaits, or goes on with, at this place. -/
def Place.confirming : Place → Option Row
  | .parked (.acquireRead r) | .woken (.acquireRead r) _ => some r
  | _ => none

/-- The record whose chain read `bind` awaits, or goes on with, at this place. -/
def Place.binding : Place → Option Row
  | .parked (.bindRead r) | .woken (.bindRead r) _ => some r
  | _ => none

/-- The withdrawals that `treasury` has still to settle. -/
def Site.unsettled : Site → Option (List Operation)
  | .withdrawalJournal op rest => some (op :: rest)
  | .rpcChain (.withdrawal op rest) .. => some (op :: rest)
  | .receipt (.withdrawal op rest) .. => some (op :: rest)
  | .treasuryStakes | .treasuryBalances _ => some []
  | _ => none

/-- The operation records that `recover` has still to look at. -/
def Site.unrecovered : Site → Option (List Operation)
  | .recoverHelper op rest => some (op :: rest)
  | .identity (.recoverOperation op rest) => some (op :: rest)
  | .recoverBalances op rest => some (op :: rest)
  | .identity .recover => some []
  | _ => none

/-- Every stored operation that satisfies `p` is one of `l`. -/
def Covers (s : World) (p : Operation → Bool) (l : List Operation) : Prop :=
  ∀ op ∈ s.store.operations.rows, p op = true → ∃ o ∈ l, p o = true ∧ o.id = op.id

/-- A list that `pc` comes with covers, or else the list at its place was narrowed to
`l` without losing an operation. -/
def Narrowed (pc : Pc) (s : World) (carried : Site → Option (List Operation))
    (p : Operation → Bool) (l : List Operation) : Prop :=
  Covers s p l ∨ ∃ i a l', pc.place = .woken i a ∧ carried i = some l' ∧
    ∀ op ∈ s.store.operations.rows, p op = true → (∃ o ∈ l', p o = true ∧ o.id = op.id) →
      ∃ o ∈ l, p o = true ∧ o.id = op.id

/-- A withdrawal that `recover` marks as uncertain. -/
def Operation.unrecovered (op : Operation) : Bool :=
  op.kind = .withdraw && (op.state = .queued || op.state = .submitting)

/-- No record is left in a state that only a running task resolves. -/
def RowsRecovered (s : World) : Prop :=
  ∀ r ∈ s.store.sessions.rows, r.state ≠ .opening ∧ r.state ≠ .closing

end MorpheusGateway
