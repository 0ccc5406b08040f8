/-
# The session manager: shared parts

The store primitives, and the methods of `Sessions` that the other methods call:
the identity check, the error and retry fields of a record, the provider ranking,
the pool limits and the scheduling of closes.  Everything here but
`verifyIdentity` and `candidates` runs without an await.
-/

import MorpheusGateway.Actions
import Mathlib.Data.List.Sort

namespace MorpheusGateway

open Coro (fails perform raise suspend ofExcept)

/-! ### Store primitives -/

/-- Read the store. -/
def fetch {α : Type} (f : World → α) (q : StoreCall := .read) : Op α := do
  if ← fails q then raise .storage else return f (← Coro.get)

/-- Write the store. -/
def store (e : Event) (q : StoreCall := .write) : Op Unit := do
  if ← fails q then raise .storage else perform e

/-- Write a record that nothing modelled here reads. -/
def storeOther (q : StoreCall := .write) : Op Unit := do
  if ← fails q then raise .storage else return ()

/-- `Store.event`: a failed diagnostic is remembered, never raised. -/
def event : Op Unit := do
  if ← fails .write then perform (.storeError true) else return ()

/-- `Store.policy`. -/
def policy (q : StoreCall := .read) : Op Policy := fetch (·.store.policy) q

/-- The session record under `id`. -/
def getRow (id : RowId) (q : StoreCall := .read) : Op (Option Row) := fetch (·.row? id) q

/-- `Store.sessions`. -/
def sessions : Op (List Row) := fetch World.sessions

/-- Store a session record. -/
def putRow (w : Writer) (row : Row) (q : StoreCall := .write) : Op Unit := store (.put w row) q

/-- A fresh ID. -/
def uuid : Op ℕ := do
  let s ← Coro.get
  perform (.uuid s.uuids)
  return s.uuids

/-- `time.time()`. -/
def now : Op ℚ := do return (← Coro.get).now

/-- Part of the process memory. -/
def memory {α : Type} (f : Memory → α) : Op α := do return f (← Coro.get).memory

/-- `async with self.lock: c`. -/
def withLock {α : Type} (c : Op α) : Op α := do
  if (← memory Memory.lock).isSome then
    match ← suspend .lock with
    | .done => pure ()
    | _ => raise .cancelled
  perform .lock
  c.tryFinally (perform .unlock)

/-- `Sessions.spawn`: a task that starts when the current one awaits. -/
def spawn (w : Work) : Op ℕ := do
  let handle ← uuid
  perform (.spawn handle w)
  return handle

namespace Sessions

variable (cfg : Config)

/-- `Sessions.verify_identity`. -/
def verifyIdentity (who : Asker) : Op Identity := do
  let identity ← ofExcept (readIdentity (← suspend (.identity who)))
  let expected ← fetch (·.store.installation)
  if expected.any fun e => e.wallet ≠ identity.wallet || e.chain ≠ identity.chain then
    perform (.ready false)
    raise (refuse .nodeIdentityChanged "Node wallet/network differs from this installation")
  if identity.version ≠ "7.11.0" ∧ identity.version ≠ "v7.11.0" then
    perform (.ready false)
    raise (refuse .unsupportedNode "This release requires Morpheus node v7.11.0")
  if cfg.requireGuards then
    if ¬ (← ofExcept (containsText identity.capabilities "stake-limit-v1")) then
      perform (.ready false)
      raise (refuse .nodeGuardMissing
        "Use the bundled node with stake-limit and recovery support")
  if expected.isNone then
    store (.installation identity)
  perform (.identity identity)
  perform (.ready true)
  return identity

/-- `Sessions.model`. -/
def model (id : String) : Op ModelPolicy := do
  match (← policy).resolve id with
  | some m => return m
  | none => raise (refuse .modelNotFound "Model is not enabled" 404)

/-- The error and retry fields `mark_error` sets. -/
def withError (row : Row) (e : Exc) (now : ℚ) : Row :=
  let failures := row.failures + 1
  { row with
    lastError := some (match e with
      | .gateway g => g.message
      | _ => "Invalid node response")
    failures
    retryAt := now + min 300 (2 ^ min failures 8) }

/-- `Sessions.mark_error`; it returns the record it changed. -/
def markError (w : Writer) (row : Row) (e : Exc) : Op Row := do
  let row := withError row e (← now)
  putRow w row
  event
  return row

/-- `Sessions.cooldown`. -/
def cooldown (model provider : String) : Op Bool := do
  let until_ ← fetch (·.store.cooldowns (model ++ provider))
  let time ← now
  return until_.any (time < ·)

/-- A bid as `candidates` ranks it. -/
structure Candidate where
  id : Json
  provider : String
  pricePerSecondWei : String
  eligible : Bool

/-- The loop of `Sessions.candidates`. -/
def rank (modelId : String) (p : Policy) : List Json → Op (List Candidate)
  | [] => return []
  | entry :: rest => do
    let bid := entry.get "Bid"
    let provider := bid.lowerField "Provider"
    let cooling ← cooldown modelId provider
    let price ← ofExcept (int (bid.getD "PricePerSecond" (.num 0)))
    let affordable := 0 < price && price ≤ decimal p.budget.maxPricePerSecondWei
    let others ← rank modelId p rest
    return { id := bid.get "Id", provider, pricePerSecondWei := toString price,
             eligible := p.providers.permits provider && !cooling && affordable } :: others

/-- `Sessions.candidates`, in `_open`. -/
def candidates (l : Preflight) : Op (List Candidate) := do
  let rated ← ofExcept (readBids l.model.id (← suspend (.openBids l)))
  rank l.model.id (← policy) rated

/-- `Sessions.schedule_close`. -/
def scheduleClose (row : Row) : Op Unit := do
  let m ← memory id
  if row.id ∈ m.active ∨ row.id ∈ m.closing ∨ (← now) < row.retryAt ∨ m.maintenance then
    return ()
  perform (.startClosing row.id)
  discard <| spawn (.scheduledClose row.id)

/-- The rows with the leased ones first, each part by age. -/
def rebalanceOrder (active : Finset RowId) (rows : List Row) : List Row :=
  rows.insertionSort fun a b =>
    (a.id ∈ active ∧ b.id ∉ active) ∨ ((a.id ∈ active ↔ b.id ∈ active) ∧ a.createdAt ≤ b.createdAt)

/-- The loop of `Sessions.rebalance`, with the rows it has kept so far. -/
def rebalanceLoop (p : Policy) : List Row → List Row → Op Unit
  | _, [] => return ()
  | kept, row :: rest => do
    if row.state ≠ .opened then
      rebalanceLoop p kept rest
    else if ((p.resolve row.model).all fun m => !p.providers.permits row.provider ||
        p.maxSessions ≤ kept.length ||
        m.maxSessions ≤ (kept.filter fun r => r.model = row.model).length) then
      let row := { row with state := .draining,
                            closeReason := some "Policy or pool limit changed" }
      putRow .rebalance row
      scheduleClose row
      rebalanceLoop p kept rest
    else
      rebalanceLoop p (row :: kept) rest

/-- `Sessions.rebalance`. -/
def rebalance : Op Unit := do
  let p ← policy
  let rows ← sessions
  rebalanceLoop p [] (rebalanceOrder (← memory Memory.active) rows)

/-- `Sessions._cool_provider`. -/
def _coolProvider (row : Row) (q : StoreCall := .write) : Op Unit := do
  let p ← policy (if q = .handler then .handler else .read)
  store (.cooldown row.model row.provider ((← now) + p.recovery.providerCooldownSeconds)) q

/-- `Sessions.require_clear_wallet`. -/
def requireClearWallet (excluding : Option RowId := none) : Op Unit := do
  if (← sessions).any fun r => some r.id ≠ excluding && r.state.unresolved then
    raise (refuse .walletPending
      "Reconciling a prior wallet transaction before submitting another")
  if (← fetch (·.store.operations.rows)).any Operation.unresolved then
    raise (refuse .withdrawalPending
      "Reconciling a prior MOR withdrawal before submitting another transaction")

/-- `str(truth.get(key, "")).lower() == str(value).lower()`. -/
def sameText (truth : Json) (key value : String) : Bool := truth.lowerField key = lower value

/-- The session `truth` is the record's, in the wallet of `i`. -/
def sameSession (i : Identity) (row : Row) (truth : Json) : Bool :=
  sameText truth "User" i.wallet && sameText truth "ModelAgentId" row.model &&
  sameText truth "Provider" row.provider && sameText truth "BidID" row.bid &&
  sameText truth "Id" (row.chainId.getD "None")

/-- Whether `int(truth[key])` is a nonnegative number. -/
def readable (truth : Json) (key : String) : Except Exc Bool := do
  match item truth key with
  | .error _ => return false
  | .ok v => match v.toInt with
    | .ok n => return 0 ≤ n
    | .error .overflowError => throw .overflowError
    | .error _ => return false

/-- The checks of `Sessions._validate_truth`. -/
def validTruth (identity : Option Identity) (row : Row) (truth : Json) : Except Exc Unit := do
  if ¬ identity.any (sameSession · row truth) then
    throw (refuse .sessionMismatch "Session identity could not be verified")
  ["EndsAt", "ClosedAt", "Stake", "OpenedAt"].forM fun key => do
    if ¬ (← readable truth key) then
      throw (refuse .sessionMismatch "Session state is incomplete or invalid")

/-- `Sessions._validate_truth`. -/
def _validateTruth (row : Row) (truth : Json) : Op Unit := do
  ofExcept (validTruth (← memory Memory.identity) row truth)

/-- `int(truth[key])` of a field that `_validate_truth` accepted. -/
def truthInt (truth : Json) (key : String) : Op ℤ := do
  ofExcept (int (← ofExcept (item truth key)))

end Sessions
end MorpheusGateway
