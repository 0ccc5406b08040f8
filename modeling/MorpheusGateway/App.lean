/-
# Chat requests and administration

The chat endpoint with its cleanup, and the administrative endpoints that change
the state.  A chat request ends in one of three ways: it raises, it returns a
completed answer, or it returns a stream, which the server then iterates or
abandons.  On every way its `cleanup` is meant to run once; the error handlers run
it as a task of its own, so that a cancelled request does not cancel it.
-/

import MorpheusGateway.Sessions.Maintain

namespace MorpheusGateway
namespace App

open Coro (fails perform raise suspend ofExcept)
open Sessions

variable (cfg : Config)

/-- The dependency `api_key`. -/
def apiKey (token : String) : Op ApiKey := do
  match ← fetch (·.store.keys.get token) with
  | some key =>
    if key.enabled then return key
    else raise (refuse .invalidApiKey "API key is invalid or revoked" 401)
  | none => raise (refuse .invalidApiKey "API key is invalid or revoked" 401)

/-- Whether a key's scope covers a model. -/
def inScope (key : ApiKey) (modelId : String) : Bool :=
  key.models.isEmpty || key.models.contains modelId

/-- `await upstream.aclose()`. -/
def closeUpstream : Op Unit := do
  match ← suspend .upstreamClose with
  | .done => return ()
  | .timeout => raise .timeout
  | .raised e => raise e
  | .cancelled => raise .cancelled
  | _ => raise .http

/-- The `finally` of `cleanup`. -/
def settle (c : Cleanup) : Op Unit := do
  (match c.row with
    | some row => release row
    | none => pure ()).tryFinally (perform (.dismiss c.key))
  match c.attempt with
  | some id => store (.attempt { id, state := .completed, createdAt := ← now })
  | none => pure ()
  event

/-- `cleanup`. -/
def cleanup (c : Cleanup) : Op Unit := do
  if c.request ∈ (← memory Memory.cleaned) then
    return ()
  perform (.cleaned c)
  (if c.upstream then closeUpstream else pure ()).tryFinally (settle c)

/-- `await asyncio.shield(cleanup())`. -/
def shieldedCleanup (c : Cleanup) : Op Unit := do
  match ← suspend (.joinCleanup (← spawn (.cleanup c))) with
  | .done => return ()
  | .raised e => raise e
  | _ => raise .cancelled

/-- How the `try` block of a chat request ends when it does not raise. -/
inductive Served : Type where
  | answer
  | stream

/-- The header `Idempotency-Key`, which counts as missing when it is empty. -/
def given (header : Option String) : Option String := header.filter fun idem => idem ≠ ""

/-- Reserve the idempotency key.  What is raised carries the variables that
`cleanup` reads. -/
def reserveAttempt (c : Cleanup) (key : Option String) : OpE (Cleanup × Exc) Cleanup := do
  match key with
  | none => return c
  | some idem =>
    if 200 < idem.length then
      raise (c, refuse .invalidIdempotencyKey "Idempotency-Key is too long" 400)
    let held := { c with attempt := some (c.key, idem) }
    match ← (fetch (·.store.attempts.get (c.key, idem))).mapError fun e => (held, e) with
    | some _ => raise (c, refuse .requestAlreadyAttempted
        "This request was already attempted; responses are not stored or replayed" 409)
    | none =>
      let time ← now.mapError fun e => (held, e)
      (store (.attempt { id := (c.key, idem), state := .started, createdAt := time })).mapError
        fun e => (held, e)
      return held

/-- The checks after `acquire`: the key and the policy as they are now. -/
def recheck (call : ChatCall) (m : ModelPolicy) (row : Row) : Op Unit := do
  let revoked := refuse .invalidApiKey "API key was revoked while waiting" 401
  match ← fetch (·.store.keys.get call.token) with
  | none => raise revoked
  | some key =>
    if ¬ key.enabled ∨ ¬ inScope key m.id then
      raise revoked
    let current ← policy
    if current.paused ∨ (← memory Memory.maintenance) ∨ (current.resolve m.id).isNone ∨
        ¬ current.providers.permits row.provider then
      raise (refuse .policyChanged "Admission policy changed while waiting; retry later")
    store (.key { key with lastUsed := some (← now) })

/-- The error of a provider response with an error status. -/
def providerRefusal (status : ℕ) : Exc :=
  if 400 ≤ status ∧ status < 500 ∧ status ≠ 429 then
    refuse .providerRequestRejected "Model rejected the request; check messages/options" status
  else
    refuse .providerError
      "Provider is unavailable; it has been quarantined for subsequent requests"
      (if 400 ≤ status ∧ status < 500 then status else 502)

/-- The dispatch to the provider. -/
def dispatch (call : ChatCall) (m : ModelPolicy) (row : Row) : Op ℕ := do
  match ← suspend (.dispatch row m.id call) with
  | .response status _ => return status
  | .timeout => raise .timeout
  | .cancelled => raise .cancelled
  | _ => raise (refuse .inferenceTransport "Could not reach the node for inference" 502)

/-- `bounded_body` and `validate_completion` on the response. -/
def readBody : Op Unit := do
  match ← suspend .responseBody with
  | .done => return ()
  | .timeout => raise .timeout
  | .raised e => raise e
  | .cancelled => raise .cancelled
  | _ => raise .http

/-- The `try` block of the chat endpoint. -/
def serve (call : ChatCall) (m : ModelPolicy) (stream : Bool) (c : Cleanup) :
    OpE (Cleanup × Exc) (Cleanup × Served) := do
  let c ← reserveAttempt c (given call.idempotencyKey)
  let row ← (acquire cfg m.id false call.rounds).mapError fun e => (c, e)
  let c := { c with row := some row }
  -- Recheck revocation after waiting for a cold open or a busy pool.
  (recheck call m row).mapError fun e => (c, e)
  let status ← (dispatch call m row).mapError fun e => (c, e)
  let c := { c with upstream := true }
  if 400 ≤ status ∧ status ≤ 599 then
    if 500 ≤ status ∨ status = 429 then
      (invalidate row ("provider_http_" ++ toString status)).mapError fun e => (c, e)
    raise (c, providerRefusal status)
  if stream then
    return (c, .stream)
  readBody.mapError fun e => (c, e)
  (cleanup c).mapError fun e => (c, e)
  return (c, .answer)

/-- `invalidate` in an error handler, which runs before the cleanup. -/
def invalidateFailed (c : Cleanup) (reason : String) : Op Unit := do
  match c.row with
  | some row => invalidate row reason .handler
  | none => return ()

/-- The error handlers of the chat endpoint. -/
def serveFailed : Cleanup × Exc → Op (Cleanup × Served)
  | (c, .gateway g) => do
    if g.code = .providerProtocol then invalidateFailed c "provider_protocol"
    if g.code = .providerResponseTooLarge then invalidateFailed c "provider_response_too_large"
    if g.code = .inferenceTransport then invalidateFailed c "inference_transport"
    shieldedCleanup c
    raise (.gateway g)
  | (c, .timeout) => do
    invalidateFailed c "inference_timeout"
    shieldedCleanup c
    raise (refuse .inferenceTimeout "Inference exceeded the request deadline" 504)
  | (c, .http) => do
    invalidateFailed c "inference_transport"
    shieldedCleanup c
    raise (refuse .inferenceTransport "Provider response was interrupted" 502)
  | (c, e) => do
    shieldedCleanup c
    raise e

/-- The errors a provider stream ends with, `except (HTTPError, GatewayError,
ValueError, TimeoutError)`. -/
def endsStream : Exc → Bool
  | .gateway _ | .http | .valueError | .timeout => true
  | _ => false

/-- Why an interrupted stream invalidates its session: the error's code, if it has one. -/
def streamReason : Exc → String
  | .gateway { code := .providerProtocol, .. } => "provider_protocol"
  | .gateway { code := .providerResponseTooLarge, .. } => "provider_response_too_large"
  | _ => "stream_interrupted"

/-- The error event of an interrupted stream. -/
def interruptStream (c : Cleanup) (e : Exc) : Op Unit := do
  if ¬ endsStream e then
    raise e
  match c.row with
  | some row => invalidate row (streamReason e)
  | none => pure ()
  match ← suspend .send with
  | .done => return ()
  | _ => raise .cancelled

/-- The events of the generator `stream`, and the error event that may end them. -/
def streamBody (c : Cleanup) : Op Unit := do
  match ← suspend .stream with
  | .done => return ()
  | .cancelled => raise .cancelled
  | .raised e => interruptStream c e
  | .timeout => interruptStream c .timeout
  | _ => interruptStream c .http

/-- The generator `stream` with its cleanup. -/
def streamEvents (c : Cleanup) : Op Unit := do
  (streamBody c).tryFinally (shieldedCleanup c)

/-- The server sends a streaming response: the generator is iterated, unless the
connection is lost before its start; then the background task runs. -/
def respond (c : Cleanup) : Op Unit := do
  match ← suspend .respond with
  | .done => streamEvents c
  | _ => pure ()
  cleanup c

/-- The chat endpoint `completion`, and the sending of its response. -/
def completion (call : ChatCall) : Op Unit := do
  let key ← apiKey call.token
  match ← suspend .requestBody with
  | .done => pure ()
  | _ => raise .cancelled
  match call.body with
  | none => raise (refuse .invalidRequest "Supply model, nonempty messages and an optional boolean stream" 400)
  | some (name, stream) =>
    match (← policy).resolve name with
    | none => raise (refuse .modelNotFound "Unknown or disabled model; use /v1/models" 404)
    | some m =>
      if ¬ inScope key m.id then
        raise (refuse .modelForbidden "This API key cannot use that model" 403)
      perform (.trimRate key.id)
      let memory ← memory id
      if key.requestsPerMinute ≤ (memory.rates key.id).length ∨
          key.concurrency ≤ memory.keyActive key.id then
        raise (refuse .rateLimit "API key rate or concurrency limit reached" 429)
      perform (.rate key.id)
      let request ← uuid
      perform (.admitted request key.id key.concurrency)
      let (c, served) ← (serve cfg call m stream { request, key := key.id }).tryCatch serveFailed
      match served with
      | .answer => return ()
      | .stream => respond c

/-! ### Administration -/

/-- `put_policy`. -/
def putPolicy (p : Policy) : Op Unit := do
  if p.revision ≠ (← policy).revision then
    raise (refuse .revisionConflict "Settings changed in another tab; reload before saving" 409)
  store (.policy p.bump)
  event
  rebalance

/-- `edit_key`. -/
def editKey (id : String) (models : List String) (concurrency requestsPerMinute : ℕ) :
    Op Unit := do
  let known := (← policy).models.map ModelPolicy.id
  if models.any fun m => !known.contains m then
    raise (refuse .unknownModel "Key scopes must use saved models" 400)
  match ← fetch fun s => s.store.keys.rows.find? fun k => k.id = id with
  | some key => store (.key { key with models, concurrency, requestsPerMinute })
  | none => raise (refuse .notFound "Key not found" 404)

/-- `revoke`. -/
def revoke (id : String) : Op Unit := do
  match ← fetch fun s => s.store.keys.rows.find? fun k => k.id = id with
  | some key =>
    store (.key { key with enabled := false })
    event
  | none => raise (refuse .notFound "API key not found" 404)

/-- `create_key`, for the new token and ID that `key` carries. -/
def createKey (key : ApiKey) (idempotencyKey : Option String) : Op Unit := do
  let marker := (given idempotencyKey).map fun idem => ("create-key", idem)
  match marker with
  | none => pure ()
  | some id =>
    if (← fetch (·.store.attempts.get id)).isSome then
      raise (refuse .keyAlreadyCreated
        "Key creation was already attempted; revoke the listed key if its value was lost" 409)
  let known := (← policy).models.map ModelPolicy.id
  if key.models.any fun m => !known.contains m then
    raise (refuse .unknownModel "Key restrictions must reference configured model IDs" 400)
  match marker with
  | none => pure ()
  | some id => store (.attempt { id, state := .completed, createdAt := ← now })
  store (.key { key with enabled := true, lastUsed := none })
  event

/-- `recovery_run`. -/
def recoveryRun : Op Unit := do
  if ¬ sweeping (← memory id) then
    perform (.sweepTask (← spawn .sweep))

/-- The endpoint `withdraw`. -/
def startWithdrawal : Op Unit := do
  if sweeping (← memory id) then
    raise (refuse .recoveryRunning "Wallet recovery is already running" 409)
  perform (.sweepTask (← spawn .treasury))

/-- The endpoint `status`: what it reads it only shows, but for `ready`. -/
def status : Op Unit := do
  let identity ← (verifyIdentity cfg .status).attempt
  let balances := readBalances (← suspend .balances)
  let stakes := readStakes (← suspend .stakes)
  let errors : Bool := match identity, balances, stakes with
    | .ok _, .ok _, .ok _ => false
    | _, _, _ => true
  perform (.ready !errors)

end App
end MorpheusGateway
