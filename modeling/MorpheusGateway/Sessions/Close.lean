/-
# Leases, closing and binding

`release` and `invalidate` end a lease, `_close` sends the close POST and
`record_closed` stores what the chain says, `bind` attaches an on-chain session to
a record whose opening is uncertain.  Only `close` takes the wallet lock.

As in `_open`, what the parts of `_close` raise they raise with the record as it
is in memory.
-/

import MorpheusGateway.Sessions.Open

namespace MorpheusGateway
namespace Sessions

open Coro (fails perform raise suspend ofExcept)

variable (cfg : Config)

/-- `Sessions.release`. -/
def release (row : Row) : Op Unit := do
  perform (.unreserve row.id)
  match ← getRow row.id with
  | none => return ()
  | some current =>
    let current := { current with lastUsed := ← now }
    putRow .release current
    if current.state = .draining then
      scheduleClose current

/-- `Sessions.invalidate`; `q` says whether an error handler calls it. -/
def invalidate (row : Row) (reason : String) (q : StoreCall := .write) : Op Unit := do
  match ← getRow row.id (if q = .handler then .handler else .read) with
  | none => return ()
  | some current =>
    if current.state ≠ .closed ∧ current.state ≠ .closing ∧ current.state ≠ .closePending then
      let current := { current with state := .draining, closeReason := some reason }
      putRow .invalidate current q
      _coolProvider current q
      event
      scheduleClose current

/-- `Sessions.record_closed`; it returns the record it changed. -/
def recordClosed (w : Writer) (row : Row) (truth : Json) : Op Row := do
  let closedAt ← truthInt truth "ClosedAt"
  let stake ← ofExcept (item truth "Stake")
  let row := { row with state := .closed, closedAt, stakeWei := stake.toStr, lastError := none }
  putRow w row
  event
  return row

/-- The record after a failed close POST, or a failed read after it. -/
def failedClose (row : Row) (g : GatewayError) : Row :=
  { row with
    state := if g.outcome = .notSubmitted then .draining else .closePending
    closeTransactions := g.transactions }

/-- The chain read after the close POST: the session as the chain has it then, if it
is closed. -/
def readClosed (row : Row) (chainId : String) : OpE (Row × Exc) (Row × Option Json) := do
  let truth ← (ofExcept (readSession chainId (← suspend (.closedRead row)))).mapError
    fun e => (row, e)
  (_validateTruth row truth).mapError fun e => (row, e)
  let closedAt ← (truthInt truth "ClosedAt").mapError fun e => (row, e)
  return (row, if closedAt = 0 then none else some truth)

/-- The close POST and the read after it. -/
def closePost (row : Row) (chainId : String) (operation : ℕ) :
    OpE (Row × Exc) (Row × Option Json) := do
  let answer ← suspend (.closePost row)
  let result ← (ofExcept (request (.closeSession chainId operation) answer)).mapError
    fun e => (row, e)
  let row := { row with closeTx := result.get "tx", state := .closePending }
  (putRow .closePosted row).mapError fun e => (row, e)
  readClosed row chainId

/-- The handlers around the close POST. -/
def closePostFailed : Row × Exc → OpE (Row × Exc) (Row × Option Json)
  | (row, .gateway g) => do
    let row := failedClose row g
    let row ← (markError .closeFailed row (.gateway g)).mapError fun e => (row, e)
    raise (row, .gateway g)
  | (row, e) => do
    let row := { row with state := .closePending }
    (putRow .closeBroken row).mapError fun e => (row, e)
    raise (row, e)

/-- `_close` from its first chain read on. -/
def closeVerified (row : Row) (chainId : String) : OpE (Row × Exc) Row := do
  let truth ← (ofExcept (readSession chainId (← suspend (.closeRead row)))).mapError
    fun e => (row, e)
  (_validateTruth row truth).mapError fun e => (row, e)
  let closedAt ← (truthInt truth "ClosedAt").mapError fun e => (row, e)
  if closedAt ≠ 0 then
    (recordClosed (.closeFound row.state) row truth).mapError fun e => (row, e)
  else
    (requireClearWallet (some row.id)).mapError fun e => (row, e)
    let operation ← uuid.mapError fun e => (row, e)
    let was := row.state
    let row := { row with state := .closing, closeOperationId := some operation }
    (putRow (.closeIntent was) row).mapError fun e => (row, e)
    match ← (closePost row chainId operation).tryCatch closePostFailed with
    | (row, none) => return row
    | (row, some truth) => (recordClosed .closeDone row truth).mapError fun e => (row, e)

/-- The outer handler of `_close`. -/
def closeFailed : Row × Exc → Op Row
  | (row, .gateway g) => do
    discard <| markError .closeError row (.gateway g)
    raise (.gateway g)
  | (_, e) => raise e

/-- `Sessions._close`. -/
def _close (row : Row) : Op Row := do
  if row.state = .closed ∨ row.state = .failed then
    return row
  if row.state = .closing ∨ row.state = .closePending then
    return row  -- Reconcile, never resubmit an uncertain close.
  if row.id ∈ (← memory Memory.active) then
    let row := { row with state := .draining }
    putRow .closeActive row
    return row
  match row.chainId with
  | none => raise (refuse .openUnknown "Reconciling the on-chain opening before closing")
  | some chainId => (closeVerified row chainId).tryCatch closeFailed

/-- The part of `Sessions.close` under the wallet lock. -/
def closeLocked (id : RowId) : Op Row := do
  if ← memory Memory.maintenance then
    raise (refuse .paused "Cleanup waits until the node restart finishes")
  match ← (verifyIdentity cfg .close).attempt with
  | .error (.gateway g) =>
    match ← getRow id with
    | none => raise .typeError
    | some row =>
      discard <| markError .closeUnverified row (.gateway g)
      raise (.gateway g)
  | .error e => raise e
  | .ok _ =>
    match ← getRow id with
    | none => raise (refuse .notFound "Session not found" 404)
    | some row => _close row

/-- `Sessions.close`. -/
def close (id : RowId) (stopMaintaining : Bool := false) : Op Row := do
  match ← getRow id with
  | none => raise (refuse .notFound "Session not found" 404)
  | some row =>
    if row.state = .opened ∨ row.state = .quarantined ∨ row.state = .orphaned then
      -- The user's close intent is kept even if identity or chain reads fail.
      putRow .closeRequested
        { row with state := .draining, closeReason := some "Close requested" }
    if stopMaintaining then
      let row ← getRow id
      let p ← policy
      match row.bind fun r => p.resolve r.model with
      | some m => store (.policy (p.stopMaintaining m.id).bump)
      | none => pure ()
    withLock (closeLocked cfg id)

/-- `openedAt` lies in the window in which the record's opening may have mined. -/
def inWindow (row : Row) (openedAt : ℤ) : Bool :=
  row.createdAt - 5 ≤ openedAt && openedAt ≤ row.createdAt + cfg.openTimeout + 120

/-- `bind` from its chain read on, for the record with its session ID. -/
def bindVerified (row : Row) (chainId : String) : Op Row := do
  let truth ← ofExcept (readSession chainId (← suspend (.bindRead row)))
  _validateTruth row truth
  let openedAt ← truthInt truth "OpenedAt"
  if ¬ inWindow cfg row openedAt then
    raise (refuse .sessionTimeMismatch
      "Session opening time does not match the operation" 409)
  let row := { row with
    state := .opened, endsAt := ← truthInt truth "EndsAt",
    stakeWei := (← ofExcept (item truth "Stake")).toStr, openedAt, lastError := none }
  if (← truthInt truth "ClosedAt") ≠ 0 then
    let row ← recordClosed .bind row truth
    event
    return row
  else
    putRow .bind row
    event
    return row

/-- `Sessions.bind`. -/
def bind (id : RowId) (chainId : String) : Op Row := do
  if ¬ isHash chainId then
    raise (refuse .invalidId "Invalid on-chain session ID" 400)
  discard <| verifyIdentity cfg .bind
  let notUncertain := refuse .notUncertain "This operation is not awaiting recovery" 409
  match ← getRow id with
  | none => raise notUncertain
  | some row =>
    if row.state ≠ .openUnknown then
      raise notUncertain
    if (← sessions).any fun r => r.id ≠ id && r.chainId = some (lower chainId) then
      raise (refuse .alreadyManaged "This session is already managed" 409)
    bindVerified cfg { row with chainId := some (lower chainId) } chainId

end Sessions
end MorpheusGateway
