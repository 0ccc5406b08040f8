/-
# Opening a session

`Sessions._open` with its three provider attempts, and the task that runs it.
The preflight ends with the `opening` record stored; `submit` sends the opening
POST, reads the session back and stores the outcome.  What `submit` raises it
raises together with the record as it is in memory, which the handlers of `_open`
write back.
-/

import MorpheusGateway.Sessions.Basic

namespace MorpheusGateway
namespace Sessions

open Coro (fails perform raise suspend ofExcept)

variable (cfg : Config)

/-- `Node.model`: read the catalogue page by page until the model is found. -/
def findModel (modelId : String) : List ℕ → Op Unit
  | [] => raise (refuse .catalogLimit "Model lookup exceeds the catalog pagination limit")
  | offset :: rest => do
    if ← ofExcept (readModelPage modelId offset (← suspend (.openModel modelId offset))) then
      return ()
    else findModel modelId rest

/-- The offsets of the catalogue pages. -/
def catalogOffsets : List ℕ := (List.range 100).map (· * 100)

/-- The sum of `int(r["stake_wei"])`. -/
def stakeSum : List Row → Except Exc ℤ
  | [] => .ok 0
  | r :: rest => do return (← int (.str r.stakeWei)) + (← stakeSum rest)

/-- What the preflight hands to the opening POST. -/
structure Plan where
  row : Row
  duration : ℕ
  limit : ℤ

/-- The stake limit of an opening, from the budget, the stakes and the balance. -/
def stakeLimit (b : Budget) (staked : ℤ) (stakes : Stakes) (balances : Balances) : ℤ :=
  let allocated := staked + decimal stakes.hold + decimal stakes.available
  let remaining := decimal b.maxTotalStakeWei - allocated
  min (min (decimal b.maxSessionStakeWei) remaining)
    (decimal balances.mor - decimal b.minLiquidMorWei)

/-- `Node.estimate`. -/
def estimate (l : Preflight) (balances : Balances) (bid : Json) : Op ℤ := do
  let supply ← ofExcept (readSupply (← suspend (.openSupply l balances)))
  let budget ← ofExcept (readBudget (← suspend (.openBudget l balances)))
  let price ← ofExcept (amount (bid.get "PricePerSecond"))
  return estimateStake supply budget price l.model.durationSeconds

/-- The bid of `_open`: the first candidate that is eligible, read again. -/
def selectBid (l : Preflight) : Op (String × String × Json) := do
  match (← candidates l).filter Candidate.eligible with
  | [] => raise (refuseUnsent .noEligibleProvider
      "No rated provider is permitted, affordable and outside cooldown")
  | selected :: _ =>
    let bidId := selected.id.toStr
    if ¬ isHash bidId then
      raise (refuse .nodeProtocol "Node returned an invalid bid ID")
    let bid ← ofExcept (readBid bidId (← suspend (.openBid l bidId)))
    let provider := bid.lowerField "Provider"
    if bid.lowerField "ModelAgentId" ≠ l.model.id then
      raise (refuse .bidChanged "Selected bid changed; refresh and retry")
    if (← ofExcept (int (bid.getD "DeletedAt" (.num 1)))) ≠ 0 ∨ provider ≠ selected.provider then
      raise (refuse .bidChanged "Selected bid changed; refresh and retry")
    return (bidId, provider, bid)

/-- The preflight of `_open`, from the wallet check on. -/
def reserve (l : Preflight) : Op Plan := do
  let (bidId, provider, bid) ← selectBid l
  let balances ← ofExcept (readBalances (← suspend (.openBalances l)))
  let estimate ← estimate l balances bid
  let stakes ← ofExcept (readStakes (← suspend (.openStakes l balances estimate)))
  let limit := stakeLimit l.policy.budget (← ofExcept (stakeSum l.rows)) stakes balances
  if estimate ≤ 0 ∨ limit < estimate ∨
      decimal balances.eth < decimal l.policy.budget.minEthWei then
    raise (refuseUnsent .walletBudget
      "Insufficient MOR/gas headroom or configured stake limit; check Wallet recovery")
  let current ← policy
  if current.revision ≠ l.policy.revision ∨ ¬ current.providers.permits provider ∨
      (← memory Memory.maintenance) ∨ current.paused then
    raise (refuse .policyChanged "Settings changed during opening preflight; retry")
  let id ← uuid
  let time ← now
  let row : Row :=
    { id := .uuid id, model := l.model.id, provider, bid := bidId, state := .opening,
      createdAt := time, lastUsed := time, stakeWei := toString limit }
  putRow (.openStart l balances stakes estimate limit) row
  event
  return { row, duration := l.model.durationSeconds, limit }

/-- The preflight of `_open`; nothing to open when the pool is full. -/
def preflight (modelId : String) : Op (Option Plan) := do
  let p ← policy
  if p.paused ∨ (← memory Memory.maintenance) then
    raise (refuse .paused "Gateway is paused or draining")
  let m ← model modelId
  discard <| verifyIdentity cfg .opening
  findModel m.id catalogOffsets
  let rows ← sessions
  if rows.any fun r => r.state = .opening || r.state = .openUnknown then
    raise (refuse .openUnknown "An opening outcome needs reconciliation")
  if p.maxSessions ≤ rows.length ∨
      m.maxSessions ≤ (rows.filter fun r => r.model = m.id).length then
    return none
  requireClearWallet
  return some (← reserve { policy := p, model := m, rows })

/-- The record as the chain read after the POST describes it. -/
def openedRow (row : Row) (truth : Json) : Op Row := do
  let closedAt ← truthInt truth "ClosedAt"
  let endsAt ← truthInt truth "EndsAt"
  let openedAt ← ofExcept (int (truth.getD "OpenedAt" (.num 0)))
  let stake ← ofExcept (item truth "Stake")
  return { row with state := if closedAt ≠ 0 then .closed else .opened,
                    endsAt, openedAt, stakeWei := stake.toStr }

/-- Whether the policy no longer admits sessions of this model and provider. -/
def inadmissible (p : Policy) (row : Row) : Bool :=
  p.paused || (p.resolve row.model).isNone || !p.providers.permits row.provider

/-- The chain read after the POST, and the record it leads to. -/
def readOpened (row : Row) (sid : String) : OpE (Row × Exc) Row := do
  let truth ← (ofExcept (readSession sid (← suspend (.openRead row)))).mapError fun e => (row, e)
  (_validateTruth row truth).mapError fun e => (row, e)
  let row ← (openedRow row truth).mapError fun e => (row, e)
  let current ← policy.mapError fun e => (row, e)
  let row := if inadmissible current row then { row with state := .draining } else row
  (putRow .openDone row).mapError fun e => (row, e)
  if row.state = .draining then
    raise (row, refuse .policyChanged "Opened session is being closed after a policy change")
  return row

/-- The opening POST and what follows it. -/
def submit (plan : Plan) : OpE (Row × Exc) Row := do
  let row := plan.row
  let answer ← suspend (.openPost row plan.duration plan.limit)
  let operation := match row.id with
    | .uuid n => n
    | .wallet _ => 0
  let result ← (ofExcept (request
    (.openSession row.bid plan.duration plan.limit operation) answer)).mapError fun e => (row, e)
  match sessionId? result with
  | none => raise (row, refuse .nodeProtocol "Node did not return a session ID")
  | some sid =>
    let row := { row with chainId := some (lower sid) }
    if ¬ (result.getD "progress" (.obj [])).isObject then
      raise (row, .attributeError)
    let row := { row with transactions := progressTransactions result }
    (putRow .openBound row).mapError fun e => (row, e)
    readOpened row sid

/-- The record after a failed opening. -/
def failedOpening (row : Row) (g : GatewayError) : Row :=
  { row with
    state := if g.outcome = .notSubmitted then .failed else .openUnknown
    transactions := if g.transactions.truth then g.transactions else row.transactions }

/-- The handlers of `_open`: `none` asks for the next provider. -/
def openingFailed (last : Bool) : Row × Exc → Op (Option (Option Row))
  | (row, .gateway g) => do
    if row.state = .draining then
      raise (.gateway g)
    let row ← markError .openFailed (failedOpening row g) (.gateway g)
    if g.code = .providerDeclined then
      _coolProvider row
      if !last then
        return none
    raise (.gateway g)
  | (row, e) => do
    putRow .openBroken { row with state := .openUnknown }
    raise e

/-- One turn of the loop of `_open`. -/
def openRound (modelId : String) (last : Bool) : Op (Option (Option Row)) := do
  match ← preflight cfg modelId with
  | none => return some none
  | some plan => Coro.tryCatch (do return some (some (← submit plan))) (openingFailed last)

/-- The loop of `_open`, over what is left of its three attempts. -/
def openRounds (modelId : String) : ℕ → Op (Option Row)
  | 0 => return none
  | n + 1 => do
    match ← openRound cfg modelId (n = 0) with
    | some r => return r
    | none => openRounds modelId n

/-- `Sessions._open`. -/
def _open (modelId : String) : Op (Option Row) := withLock (openRounds cfg modelId 3)

/-- `Sessions.opening_error`. -/
def openingError (modelId : String) : Op (Option GatewayError) := do
  match ← fetch (·.store.openingFailures modelId) with
  | none => return none
  | some f =>
    if f.revision = (← policy).revision ∧ (← now) < f.retryAt then
      return some { code := f.error.code, message := f.error.message, status := f.error.status,
                    outcome := f.error.outcome }
    else return none

/-- The errors of an opening that are remembered with a backoff. -/
def backsOff (g : GatewayError) : Bool :=
  (g.code = .sessionDurationInvalid || g.code = .openPreflightFailed ||
    g.code = .providerDeclined || g.code = .noEligibleProvider) && g.outcome = .notSubmitted

/-- The task of `start_open`. -/
def openModel (modelId : String) (revision : ℕ) : Op Unit := do
  match ← (_open cfg modelId).attempt with
  | .ok _ => store (.openingSucceeded modelId)
  | .error (.gateway g) =>
    if backsOff g then
      let previous ← fetch (·.store.openingFailures modelId)
      let failures := match previous with
        | some f => if f.revision = revision then min (f.failures + 1) 8 else 1
        | none => 1
      store (.openingFailed modelId
        { revision, failures, retryAt := (← now) + min 300 (5 * 2 ^ failures), error := g })
    raise (.gateway g)
  | .error e => raise e

/-- `Sessions.start_open`. -/
def startOpen (modelId : String) : Op ℕ := do
  let revision := (← policy).revision
  let handle ← spawn (.opener modelId revision)
  perform (.opener modelId handle)
  return handle

/-- The callback of `start_open`: it never removes a newer opener. -/
def openerDone (opener : ℕ) (modelId : String) : Op Unit := do
  if (← memory Memory.opening) modelId = some opener then
    perform (.dropOpener modelId)

/-- The rows a queued request may still borrow, in the loop of `can_wait_for_hot`. -/
def anyHot (modelId : String) : List Row → Op Bool
  | [] => return false
  | row :: rest => do
    if row.model = modelId ∧ row.state = .opened then
      if (← policy).providers.permits row.provider ∧
          (← now) + cfg.requestTimeout + 15 < row.endsAt then
        return true
    anyHot modelId rest

/-- `Sessions.can_wait_for_hot`. -/
def canWaitForHot (modelId : String) (error : GatewayError) : Op Bool := do
  if error.outcome = .notSubmitted ∧ (error.code = .providerDeclined ∨
      error.code = .noEligibleProvider ∨ error.code = .walletBudget ∨
      error.code = .openPreflightFailed) then
    anyHot cfg modelId (← sessions)
  else return false

end Sessions
end MorpheusGateway
