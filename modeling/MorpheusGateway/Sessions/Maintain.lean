/-
# The maintenance worker and restarts

`Sessions.recover` runs once after a start, `Sessions.tick` every few seconds
after it.  Each turn of the worker's endless loop is a task that spawns the next.
`Sessions.restart` drains the gateway and has the helper restart the node.
-/

import MorpheusGateway.Sessions.Wallet

namespace MorpheusGateway
namespace Sessions

open Coro (fails perform raise suspend ofExcept)

variable (cfg : Config)

/-- `recover` on the session records: a wallet transaction may have been sent. -/
def recoverRows : List Row → Op Unit
  | [] => return ()
  | row :: rest => do
    if row.state = .opening then
      putRow .recover { row with state := .openUnknown }
    else if row.state = .closing then
      putRow .recover { row with state := .closePending }
    recoverRows rest

/-- A restart whose completion the helper may know of. -/
def interrupted (op : Operation) : Bool :=
  op.kind ≠ .withdraw && (op.state = .queued || op.state = .draining ||
    op.state = .restarting || op.state = .interrupted)

/-- Whether the helper reports that an interrupted restart succeeded. -/
def restartCompleted (op : Operation) (rest : List Operation) : Op Bool := do
  if ¬ cfg.helperConfigured then
    raise (refuse .helperMissing "Node management helper is not connected")
  let result ← ofExcept (helperRequest (← suspend (.recoverHelper op rest)))
  if result.get "state" ≠ .str "succeeded" then
    return false
  discard <| verifyIdentity cfg (.recoverOperation op rest)
  discard <| ofExcept (readBalances (← suspend (.recoverBalances op rest)))
  store (.putOperation .restart { op with
    state := .succeeded, message := "Restart completion recovered from local helper" })
  return true

/-- `recover` on one operation record that is not known to have succeeded. -/
def recoverOperation (op : Operation) : Op Unit := do
  if op.kind = .withdraw ∧ (op.state = .queued ∨ op.state = .submitting) then
    store (.putOperation .recover { op with
      state := .uncertain, message := "Checking an interrupted MOR withdrawal" })
  else if op.kind ≠ .withdraw ∧
      (op.state = .queued ∨ op.state = .draining ∨ op.state = .restarting) then
    store (.putOperation .restart { op with
      state := .interrupted
      message := "Gateway restarted; checking node and effective configuration" })

/-- `recover` on the operation records. -/
def recoverOperations : List Operation → Op Unit
  | [] => return ()
  | op :: rest => do
    let completed ← if interrupted op then
      Coro.tryCatch (restartCompleted cfg op rest) fun
        | .gateway _ => pure false
        | e => raise e
      else pure false
    if ¬ completed then
      recoverOperation op
    recoverOperations rest

/-- `Sessions.recover`. -/
def recover : Op Unit := do
  store .interruptAttempts
  recoverRows (← sessions)
  recoverOperations cfg (← fetch (·.store.operations.rows))
  Coro.tryCatch (do discard <| verifyIdentity cfg .recover; reconcile cfg) fun
    | .gateway _ => pure ()
    | e => raise e

/-- `Store.probe_writable`. -/
def probeWritable : Op Unit := do
  storeOther
  storeOther .read

/-- Whether `tick` ends the session: its model or provider is not wanted any more,
or it is idle, expired or past its warm period. -/
def ended (p : Policy) (time : ℚ) (row : Row) : Bool :=
  (row.endsAt ≠ 0 && decide (row.endsAt ≤ time)) || !p.providers.permits row.provider ||
  match p.resolve row.model with
  | none => true
  | some m =>
    (m.retention = .onDemand && decide (m.idleSeconds ≤ time - row.lastUsed)) ||
    (m.retention = .maintain && m.warmUntil.any fun w => decide (w ≤ time))

/-- The loop of `tick` over the records. -/
def tickRows (p : Policy) : List Row → Op Unit
  | [] => return ()
  | row :: rest => do
    let time ← now
    if row.id ∉ (← memory Memory.active) ∧ row.retryAt ≤ time then
      let row ← if row.state = .opened ∧ ended p time row then do
          let row := { row with state := .draining,
                                closeReason := some "Expired, idle or disabled by policy" }
          putRow .tick row
          pure row
        else pure row
      if row.state = .draining ∨ row.state = .orphaned then
        scheduleClose row
    tickRows p rest

/-- Sessions of a maintained model that are about to expire are closed. -/
def replaceExpiring (modelId : String) : List Row → Op Unit
  | [] => return ()
  | row :: rest => do
    if row.model = modelId ∧ row.state = .opened ∧
        row.endsAt ≤ (← now) + cfg.requestTimeout + 15 then
      let row := { row with state := .draining }
      putRow .tick row
      scheduleClose row
    replaceExpiring modelId rest

/-- The loop of `tick` over the models. -/
def maintainModels : List ModelPolicy → Op Unit
  | [] => return ()
  | m :: rest => do
    let time ← now
    if m.enabled ∧ m.retention = .maintain ∧ (m.warmUntil.all fun w => decide (time < w)) ∧
        ((← memory Memory.opening) m.id).isNone then
      if (← openingError m.id).isNone then
        let active ← memory Memory.active
        if (← sessions).any fun r => r.model = m.id && r.state = .opened && r.id ∉ active then
          replaceExpiring cfg m.id (← sessions)
        else
          discard <| startOpen m.id
    maintainModels rest

/-- Whether the sweep that was last started has not ended. -/
def sweeping (m : Memory) : Bool := m.sweepTask.any fun h => (m.finished h).isNone

/-- `Sessions.tick`. -/
def tick : Op Unit := do
  if ← memory Memory.maintenance then
    return ()
  if ← memory Memory.storeError then
    probeWritable
  discard <| verifyIdentity cfg .tick
  discard <| ofExcept (readBalances (← suspend .balances))
  reconcile cfg
  rebalance
  let p ← policy
  tickRows p (← sessions)
  if !p.paused then
    maintainModels cfg p.models
  let m ← memory id
  if p.recovery.enabled ∧ cfg.recoveryInterval ≤ (← now) - m.lastSweep ∧ ¬ sweeping m then
    perform (.sweepTask (← spawn .sweep))
  if ← memory Memory.storeError then
    probeWritable
    perform (.storeError false)

/-- One turn of the loop of `Sessions.run`. -/
def runTurn : Op Unit := do
  match ← (tick cfg).attempt with
  | .ok () => pure ()
  | .error .cancelled => raise .cancelled
  | .error _ => perform (.ready false)
  pause
  discard <| spawn .tick

/-- `Sessions.run`. -/
def run : Op Unit := do
  recover cfg
  runTurn cfg

/-- `Sessions.restart`. -/
def restart (immediate applyRating : Bool) : Op Operation := do
  if ← memory Memory.maintenance then
    raise (refuse .restartInProgress "A restart is already in progress" 409)
  if ¬ cfg.helperConfigured then
    raise (refuse .helperMissing "Install/connect the local node management helper")
  perform (.maintenance true)
  let op : Operation :=
    { id := ← uuid, kind := if applyRating then .applyRating else .restart, state := .queued,
      createdAt := ← now, message := "Waiting for active requests and wallet operations" }
  store (.putOperation .restart op) .restart
  discard <| spawn (.restart op immediate applyRating)
  return op

/-- The wait of `_restart` for the leases and for the wallet lock. -/
def drain (immediate : Bool) : Op Unit := do
  if !immediate && decide ((← memory Memory.active) ≠ ∅) then
    match ← suspend (.drained immediate) with
    | .done => pure ()
    | .timeout => raise .timeout
    | _ => raise .cancelled
  if (← memory Memory.lock).isSome then
    match ← suspend .drainedLock with
    | .done => pure ()
    | .timeout => raise .timeout
    | _ => raise .cancelled
  perform .lock

/-- The part of `_restart` under the wallet lock. -/
def restartNode (op : Operation) (p : Policy) (applyRating : Bool) : Op Unit := do
  store (.putOperation .restart op)
  discard <| ofExcept (helperRequest (← suspend (.helperRestart op)))
  discard <| verifyIdentity cfg .restart
  discard <| ofExcept (readBalances (← suspend .balances))
  reconcile cfg
  if applyRating then
    store (.appliedRating p.revision)

/-- The `try` block of `_restart`. -/
def restartBody (op : Operation) (p : Policy) (immediate applyRating : Bool) :
    OpE (Operation × Exc) Operation := do
  let op := { op with state := .draining }
  (store (.putOperation .restart op)).mapError fun e => (op, e)
  (drain immediate).mapError fun e => (op, e)
  let op := { op with state := .restarting, message := "Restarting the local node" }
  ((restartNode cfg op p applyRating).tryFinally (perform .unlock)).mapError fun e => (op, e)
  return { op with state := .succeeded, message := "Node and chain are ready; admission resumed" }

/-- The operation record as the handlers of `_restart` leave it. -/
def restartOutcome : Except (Operation × Exc) Operation → Operation
  | .ok op => op
  | .error (op, .cancelled) => op
  | .error (op, .timeout) => { op with
      state := .failed
      message := "Requests or wallet operations did not drain; no restart was performed" }
  | .error (op, .gateway g) => { op with state := .failed, message := g.message }
  | .error (op, _) => { op with
      state := .failed, message := "Restart failed; inspect helper logs" }

/-- `Sessions._restart`. -/
def _restart (op : Operation) (immediate applyRating : Bool) : Op Unit := do
  let p ← policy .restart
  let r ← (restartBody cfg op p immediate applyRating).attempt
  store (.putOperation .restart (restartOutcome r)) .restart
  event
  perform (.maintenance false)
  match r with
  | .error (_, .cancelled) => raise .cancelled
  | _ => return ()

end Sessions
end MorpheusGateway
