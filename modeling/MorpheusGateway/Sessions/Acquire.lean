/-
# Borrowing a session

`Sessions.acquire`: reserve an idle open session and confirm it on the chain, or
wait for an opener, until a deadline.  The loop is followed for a given number of
turns; a request that would turn more often waits at `Site.later` for ever, so
every finite run of the source is a run for some number.
-/

import MorpheusGateway.Sessions.Close

namespace MorpheusGateway
namespace Sessions

open Coro (fails perform raise suspend ofExcept)

variable (cfg : Config)

/-- How the `try` block of a reserved record ends: the record is borrowed, left
alone, or written as closed or draining. -/
inductive Borrowed : Type where
  | use (row : Row)
  | skip
  | settled (row : Row)

/-- The `try` block of a reserved record. -/
def confirm (m : ModelPolicy) (prewarm : Bool) (row : Row) : OpE (Row × Exc) Borrowed := do
  discard <| (verifyIdentity cfg (.acquire row)).mapError fun e => (row, e)
  let answer ← suspend (.acquireRead row)
  let truth ← (ofExcept (readSession (row.chainId.getD "None") answer)).mapError fun e => (row, e)
  (_validateTruth row truth).mapError fun e => (row, e)
  match ← (getRow row.id).mapError fun e => (row, e) with
  | none => do
    perform (.unreserve row.id)
    return .skip
  | some latest =>
    if latest.state ≠ .opened then
      perform (.unreserve row.id)
      return .skip
    let row := latest
    let closedAt ← (truthInt truth "ClosedAt").mapError fun e => (row, e)
    let endsAt ← (truthInt truth "EndsAt").mapError fun e => (row, e)
    let time ← now.mapError fun e => (row, e)
    if closedAt ≠ 0 then
      let row := { row with state := .closed }
      (putRow .acquired row).mapError fun e => (row, e)
      return .settled row
    if endsAt ≤ time + cfg.requestTimeout + 15 then
      let row := { row with state := .draining,
                            closeReason := some "Replacing session near expiry" }
      (putRow .acquired row).mapError fun e => (row, e)
      return .settled row
    let current ← policy.mapError fun e => (row, e)
    let paused ← (memory Memory.maintenance).mapError fun e => (row, e)
    if current.paused ∨ paused ∨ (current.resolve m.id).isNone ∨
        ¬ current.providers.permits row.provider then
      raise (row, refuse .policyChanged "Admission policy changed while waiting")
    let row := { row with lastUsed := time, endsAt, lastError := none }
    (putRow .acquired row).mapError fun e => (row, e)
    if prewarm then
      perform (.unreserve row.id)
    return .use row

/-- The errors that end the request instead of quarantining the record. -/
def endsRequest (c : Code) : Bool :=
  c = .policyChanged || c = .nodeIdentityChanged || c = .unsupportedNode || c = .nodeGuardMissing

/-- The handlers around `confirm`. -/
def confirmFailed : Row × Exc → Op Borrowed
  | (row, .gateway g) => do
    perform (.unreserve row.id)
    if endsRequest g.code then
      raise (.gateway g)
    discard <| markError .quarantine { row with state := .quarantined } (.gateway g)
    return .skip
  | (row, e) => do
    perform (.unreserve row.id)
    raise e

/-- The loop over the live records: the first that can be borrowed. -/
def borrow (m : ModelPolicy) (prewarm : Bool) : List Row → Op (Option Row)
  | [] => return none
  | row :: rest => do
    if row.model ≠ m.id ∨ row.state ≠ .opened ∨ row.id ∈ (← memory Memory.active) then
      borrow m prewarm rest
    else
      perform (.reserve row.id)  -- Atomic reservation before any network await.
      match ← (confirm cfg m prewarm row).tryCatch confirmFailed with
      | .use row => return some row
      | .skip => borrow m prewarm rest
      | .settled row => do
        perform (.unreserve row.id)
        if row.state = .draining then
          scheduleClose row
        borrow m prewarm rest

/-- The `finally` of the wait for an opener. -/
def dropFinished (modelId : String) (opener : ℕ) : Op Unit := do
  let m ← memory id
  if (m.finished opener).isSome ∧ m.opening modelId = some opener then
    perform (.dropOpener modelId)

/-- The wait for an opener, which other requests may be waiting for too. -/
def awaitOpener (modelId : String) (opener : ℕ) : Op Unit := do
  match ← suspend (.joinOpener opener) with
  | .done => return ()
  | .timeout => raise (refuse .openingPending
      "Opening is still running; inspect Sessions before retrying" 503)
  | .raised (.gateway g) =>
    if ¬ (← canWaitForHot cfg modelId g) then
      raise (.gateway g)
  | .raised e => raise e
  | _ => raise .cancelled

/-- `await asyncio.sleep`. -/
def pause : Op Unit := do
  match ← suspend .pause with
  | .done => return ()
  | _ => raise .cancelled

/-- The opener to wait for, after no record could be borrowed. -/
def chooseOpener (m : ModelPolicy) (deadline : ℚ) : Op (Option ℕ) := do
  let rows ← sessions
  if rows.any fun r => (r.state = .opening || r.state = .openUnknown) && r.model ≠ m.id then
    -- Borrowing is unaffected; unknown escrow cannot authorize another open.
    if rows.any fun r => r.state = .openUnknown then
      raise (refuse .openUnknown
        "Reconciling an uncertain opening before another wallet mutation")
  if rows.any fun r => r.state = .openUnknown then
    raise (refuse .openUnknown
      "An opening outcome needs reconciliation before new sessions can open")
  let task := (← memory Memory.opening) m.id
  match ← openingError m.id with
  | some error =>
    if task.isNone then
      if ¬ (← canWaitForHot cfg m.id error) then
        raise (.gateway error)
    return task
  | none =>
    if task.isNone ∧ (← Coro.get).monotonic < deadline then
      if rows.length < (← policy).maxSessions ∧
          (rows.filter fun r => r.model = m.id).length < m.maxSessions then
        return some (← startOpen m.id)
    return task

/-- The loop of `acquire`. -/
def acquireLoop (modelId : String) (prewarm : Bool) (deadline : ℚ) : ℕ → Op Row
  | 0 => do
    discard <| suspend .later
    raise .cancelled
  | n + 1 => do
    if ← memory Memory.maintenance then
      raise (refuse .paused "Gateway is paused or draining")
    if (← policy).paused then
      raise (refuse .paused "Gateway is paused or draining")
    let m ← model modelId
    rebalance
    match ← borrow cfg m prewarm (← sessions) with
    | some row => return row
    | none =>
      match ← chooseOpener cfg m deadline with
      | some opener =>
        (awaitOpener cfg m.id opener).tryFinally (dropFinished m.id opener)
        -- The opener does not lease. Competing callers reserve like everyone else.
        pause
      | none =>
        if deadline ≤ (← Coro.get).monotonic then
          raise (refuse .poolBusy "Session pool is busy; retry later" 429)
        pause
      acquireLoop modelId prewarm deadline n

/-- `Sessions.acquire`, its loop followed for `rounds` turns. -/
def acquire (modelId : String) (prewarm : Bool) (rounds : ℕ) : Op Row := do
  if (← policy).paused ∨ (← memory Memory.maintenance) then
    raise (refuse .paused "Gateway is paused or draining for a node restart")
  if 64 ≤ (← memory Memory.waiting) then
    raise (refuse .queueFull "Request queue is full" 429)
  perform .wait
  let p ← policy .queueRead
  let deadline := (← Coro.get).monotonic + p.queueSeconds
  (acquireLoop cfg modelId prewarm deadline rounds).tryFinally (perform .unwait)

end Sessions
end MorpheusGateway
