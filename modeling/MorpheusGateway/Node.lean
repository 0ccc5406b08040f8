/-
# What the node, the helper and the recovery RPC answer

A call to another party is answered by an `Answer`: an HTTP response, or one of
the ways a call ends without one.  The functions of this module turn an answer
into what the client code returns or raises: `request` for the consumer node,
one reader for each endpoint, `rpcCall` and `helperRequest`.

The label an error carries, `notSubmitted` or `unknown`, is decided in `request`
alone, from the call, the status and the body.
-/

import MorpheusGateway.Models
import Mathlib.Algebra.Group.Nat.Defs

namespace MorpheusGateway

/-- The `code` of a `GatewayError`. -/
inductive Code : Type where
  | nodeProtocol | nodeRejected | nodeUnreachable | walletNotReady | catalogLimit
  | unsupportedModel | modelNotFound | budgetUnavailable | rpcNotConfigured | rpcUnavailable
  | invalidTransaction | rpcChainMismatch | inferenceTransport
  | helperMissing | helperAuth | helperRejected | helperProtocol | helperUnreachable
  | sessionDurationInvalid | providerDeclined | openPreflightFailed
  | nodeIdentityChanged | unsupportedNode | nodeGuardMissing
  | paused | queueFull | policyChanged | openUnknown | openingPending | poolBusy
  | noEligibleProvider | walletPending | withdrawalPending | bidChanged | walletBudget
  | sessionMismatch | notFound | invalidId | notUncertain | alreadyManaged
  | sessionTimeMismatch | gasHeadroom | restartInProgress | recoveryRunning
  | invalidApiKey | revisionConflict | invalidRequest | modelForbidden | rateLimit
  | invalidIdempotencyKey | requestAlreadyAttempted | unknownModel | keyAlreadyCreated
  | providerRequestRejected | providerError | providerProtocol | providerResponseTooLarge
  | inferenceTimeout | streamInterrupted
  deriving DecidableEq

/-- What an error says about the mutation it interrupted. -/
inductive Outcome : Type where
  | unknown
  | notSubmitted
  deriving DecidableEq

/-- `GatewayError`. -/
structure GatewayError where
  code : Code
  message : String
  status : ℕ := 503
  outcome : Outcome := .unknown
  transactions : Json := .arr []
  deriving DecidableEq

/-- Everything the gateway's code can raise. -/
inductive Exc : Type where
  | gateway (e : GatewayError)
  | storage
  | keyError
  | typeError
  | valueError
  | overflowError
  | attributeError
  | recursionError
  | timeout
  | http
  | cancelled
  deriving DecidableEq

/-- `raise GatewayError(code, message, status)`. -/
def refuse (code : Code) (message : String) (status : ℕ := 503) : Exc :=
  .gateway { code, message, status }

/-- `raise GatewayError(code, message, status, outcome="not_submitted")`. -/
def refuseUnsent (code : Code) (message : String) (status : ℕ := 503) : Exc :=
  .gateway { code, message, status, outcome := .notSubmitted }

/-- The exception of a failed `int`. -/
def IntError.exc : IntError → Exc
  | typeError => .typeError
  | valueError => .valueError
  | overflowError => .overflowError

/-- `int(x)`. -/
def int (x : Json) : Except Exc ℤ := x.toInt.mapError IntError.exc

/-- `int(x, 16)`. -/
def intHex (x : Json) : Except Exc ℤ := x.toIntHex.mapError IntError.exc

/-- `x[key]` of an object. -/
def item (x : Json) (key : String) : Except Exc Json :=
  match x.get? key with
  | some v => .ok v
  | none => .error .keyError

/-- How a call to another party ends. -/
inductive Answer : Type where
  /-- A response, with its JSON body if the body is JSON. -/
  | response (status : ℕ) (body : Option Json)
  | oversized
  /-- A body nested too deeply for the JSON reader. -/
  | nested
  | transport
  | timeout
  | cancelled
  /-- A wait that is over. -/
  | done
  /-- A joined task, or a provider stream, that raised. -/
  | raised (e : Exc)
  deriving DecidableEq

/-- The requests to the consumer node. -/
inductive NodeCall : Type where
  | config
  | models (offset : ℕ)
  | ratedBids (model : String)
  | bid (id : String)
  | openSession (bid : String) (duration : ℕ) (maxStake : ℤ) (operation : ℕ)
  | session (id : String)
  | closeSession (id : String) (operation : ℕ)
  | userSessions (wallet : String) (offset : ℕ)
  | balance
  | stakesOnHold
  | withdraw (operation : ℕ)
  | supply
  | budget
  deriving DecidableEq

/-- The calls made with `POST`; the others are `GET`. -/
def NodeCall.isPost : NodeCall → Bool
  | openSession .. | closeSession .. | withdraw _ => true
  | _ => false

/-- `POST /blockchain/bids/…/session`. -/
def NodeCall.isOpening : NodeCall → Bool
  | openSession .. => true
  | _ => false

/-- `POST …/close`. -/
def NodeCall.isClosing : NodeCall → Bool
  | closeSession .. => true
  | _ => false

/-- `object_response`. -/
def objectResponse (x : Json) : Except Exc Json :=
  if x.isObject then .ok x else .error (refuse .nodeProtocol "Node returned an invalid object" 502)

/-- `amount`: a digit text or a nonnegative integer of at most 78 digits, as decimal text. -/
def amount (x : Json) : Except Exc String :=
  let read (s : String) : Except Exc String :=
    if s ≠ "" ∧ s.toList.all (fun c => (decimalDigit c).isSome) ∧ s.toList.length ≤ 78 then
      .ok (toString (decimal s))
    else .error (refuse .nodeProtocol "Node returned an invalid amount" 502)
  match x with
  | .str s => read s
  | .num n => read (toString n)
  | _ => .error (refuse .nodeProtocol "Node returned an invalid amount" 502)

/-- `text.startswith(prefixes)`. -/
def startsWithAny (text : String) (prefixes : List String) : Bool :=
  prefixes.any fun p => p.toList.isPrefixOf text.toList

/-- `part in text`. -/
def hasText (text part : String) : Bool := decide (part.toList <:+: text.toList)

/-- A session ID the node may have given: a nonzero hash. -/
def sessionId? (data : Json) : Option String :=
  let sid := (data.getD "sessionID" (.str "")).toStr
  if isHash sid ∧ hexValue sid ≠ 0 then some sid else none

/-- `data["progress"]`'s transactions, when it is an object. -/
def progressTransactions (data : Json) : Json :=
  (data.getD "progress" (.obj [])).getD "transactions" (.arr [])

/-- The body's own progress says that nothing was submitted. -/
def progressUnsent (data : Json) : Bool :=
  (data.getD "progress" (.obj [])).get "stage" = .str "not_submitted"

/-- `GatewayError`'s `transactions or []`. -/
def orEmpty (x : Json) : Json := if x.truth then x else .arr []

/-- The error an HTTP error response with the object `data` is reported as. -/
def rejection (call : NodeCall) (status : ℕ) (data : Json) : GatewayError :=
  let transactions := orEmpty (progressTransactions data)
  let outcome := if progressUnsent data then Outcome.notSubmitted else .unknown
  let message := match data.getD "error" (.str "") with
    | .str m => some m
    | _ => none
  let text (f : String → Bool) : Bool := message.any f
  if call.isOpening && text (fun m => hasText m "SessionTooShort" ||
      hasText m "gateway session duration below contract minimum") then
    { code := .sessionDurationInvalid, status := 400, outcome, transactions,
      message := "The contract rejected the session duration; check the network minimum and refresh the stake quote" }
  else if call.isOpening && text (startsWithAny · ["provider healthcheck ping failed",
      "provider self-reports model as not serviceable", "failed to initiate session",
      "TEE attestation failed"]) then
    { code := .providerDeclined, outcome := .notSubmitted, transactions,
      message := "Provider declined or failed verification before submission" }
  else if call.isOpening && text (startsWithAny · ["failed to parse token supply",
      "failed to parse token budget", "failed to get bid", "failed to get provider",
      "failed to get my address", "cannot open session with own bid",
      "gateway stake limit exceeded", "invalid token supply", "invalid emissions budget"]) then
    { code := .openPreflightFailed, status := 503, outcome := .notSubmitted, transactions,
      message := "Opening preflight failed; check RPC, bid and configured stake limit" }
  else
    { code := .nodeRejected, status := 502, transactions,
      message := "Consumer node returned HTTP " ++ toString status ++
        "; inspect activity for the operation",
      outcome :=
        if !call.isPost then .notSubmitted
        else if call.isClosing && text (startsWithAny ·
          ["cannot get private key", "failed to get session report from user"]) then .notSubmitted
        else outcome }

/-- `Node.request`: what the answer to a call makes the client return or raise. -/
def request (call : NodeCall) : Answer → Except Exc Json
  | .response _ none => .error (refuse .nodeProtocol "Node returned invalid JSON" 502)
  | .response status (some body) => do
    let data ← objectResponse body
    if ¬ (400 ≤ status ∧ status ≤ 599) then return data
    if call.isOpening && (sessionId? data).isSome then
      return data  -- Open mined; local node registration/visibility failed afterward.
    throw (.gateway (rejection call status data))
  | .oversized => .error (refuse .nodeProtocol "Node response exceeds the size limit" 502)
  | .nested => .error .recursionError
  | .transport | .timeout => .error (.gateway
      { code := .nodeUnreachable, message := "The consumer node did not respond",
        outcome := if call.isPost then .unknown else .notSubmitted })
  | .cancelled => .error .cancelled
  | .done => .error .cancelled
  | .raised e => .error e

/-! ### The node's endpoints -/

/-- Who the node says it is. -/
structure Identity where
  wallet : String
  chain : String
  version : String
  capabilities : Json
  deriving DecidableEq

/-- `Node.identity`. -/
def readIdentity (a : Answer) : Except Exc Identity := do
  let data ← request .config a
  let derived ← objectResponse (data.get "DerivedConfig")
  let wallet := derived.lowerField "WalletAddress"
  if ¬ isAddress wallet ∨ hexValue wallet = 0 then
    throw (refuse .walletNotReady "The node wallet is not ready")
  let chain ← amount (derived.get "ChainID")
  match data.get "Version" with
  | .str version =>
    if chain = "0" then throw (refuse .nodeProtocol "Node identity is incomplete")
    return { wallet, chain, version,
             capabilities := data.getD "GatewayCapabilities" (.arr []) }
  | _ => throw (refuse .nodeProtocol "Node identity is incomplete")

/-- `value in x` for a text. -/
def containsText (x : Json) (value : String) : Except Exc Bool :=
  match x with
  | .arr xs => .ok (xs.contains (.str value))
  | .str s => .ok (hasText s value)
  | .obj fields => .ok (fields.any fun p => p.1 = value)
  | _ => .error .typeError

/-- One page of `Node.model`: whether the model is on it (`true`), or the next
page has to be read (`false`). -/
def readModelPage (modelId : String) (offset : ℕ) (a : Answer) : Except Exc Bool := do
  let data ← request (.models offset) a
  match data.get "models" with
  | .arr batch =>
    let rec scan : List Json → Except Exc Bool
      | [] =>
        if batch.length < 100 then
          .error (refuseUnsent .modelNotFound "Model is absent from the node catalog" 404)
        else .ok false
      | m :: rest =>
        if ¬ m.isObject then
          .error (refuse .nodeProtocol "Node returned an invalid object" 502)
        else if m.lowerField "Id" ≠ lower modelId then scan rest
        else if (m.get "IsDeleted").truth ∨ m.get "ModelType" ≠ .str "LLM" then
          .error (refuseUnsent .unsupportedModel
            "This model does not support chat completions" 400)
        else .ok true
    scan batch
  | _ => throw (refuse .nodeProtocol "Node catalog is invalid" 502)

/-- Whether a score is a finite number; an integer too large for a float raises. -/
def finiteScore : Json → Except Exc Bool
  | .num n => if 2 ^ 1024 - 2 ^ 970 ≤ n.natAbs then .error .overflowError else .ok true
  | .float _ (.finite _) => .ok true
  | _ => .ok false

/-- One entry of `Node.bids`. -/
def checkBid (entry : Json) : Except Exc Unit := do
  let _ ← objectResponse entry
  let bid ← objectResponse (entry.get "Bid")
  if ¬ isHash (bid.getD "Id" (.str "")).toStr ∨
      ¬ isAddress (bid.getD "Provider" (.str "")).toStr then
    throw (refuse .nodeProtocol "Node returned an invalid bid" 502)
  if ¬ (← finiteScore (entry.get "Score")) then
    throw (refuse .nodeProtocol "Node returned an invalid score" 502)
  let _ ← amount (bid.get "PricePerSecond")

/-- `Node.bids`. -/
def readBids (model : String) (a : Answer) : Except Exc (List Json) := do
  match (← request (.ratedBids model) a).get "bids" with
  | .arr entries => do
    entries.forM checkBid
    return entries
  | _ => throw (refuse .nodeProtocol "Node returned an invalid bid list" 502)

/-- `Node.bid`. -/
def readBid (id : String) (a : Answer) : Except Exc Json := do
  objectResponse ((← request (.bid id) a).get "bid")

/-- `Node.session`. -/
def readSession (id : String) (a : Answer) : Except Exc Json := do
  objectResponse ((← request (.session id) a).get "session")

/-- `Node.wallet_sessions`. -/
def readWalletSessions (wallet : String) (offset : ℕ) (a : Answer) : Except Exc (List Json) := do
  match (← request (.userSessions wallet offset) a).get "sessions" with
  | .arr batch =>
    if batch.all Json.isObject then return batch
    else throw (refuse .nodeProtocol "Wallet session list is invalid" 502)
  | _ => throw (refuse .nodeProtocol "Wallet session list is invalid" 502)

/-- The wallet's balances. -/
structure Balances where
  mor : String
  eth : String
  deriving DecidableEq

/-- `Node.balances`. -/
def readBalances (a : Answer) : Except Exc Balances := do
  let data ← request .balance a
  return { mor := ← amount (data.get "mor"), eth := ← amount (data.get "eth") }

/-- The wallet's stakes the contract holds. -/
structure Stakes where
  available : String
  hold : String
  deriving DecidableEq

/-- `Node.stakes`. -/
def readStakes (a : Answer) : Except Exc Stakes := do
  let data ← request .stakesOnHold a
  return { available := ← amount (data.get "available"), hold := ← amount (data.get "hold") }

/-- The token supply of `Node.estimate`. -/
def readSupply (a : Answer) : Except Exc String := do
  amount ((← request .supply a).get "supply")

/-- The emissions budget of `Node.estimate`. -/
def readBudget (a : Answer) : Except Exc String := do
  let budget ← amount ((← request .budget a).get "budget")
  if decimal budget = 0 then
    throw (refuseUnsent .budgetUnavailable "Network emissions budget is unavailable")
  return budget

/-- The last lines of `Node.estimate`: a quotient rounded up, with one basis point of
slack. -/
def roundedStake (supply budget price : ℤ) (duration : ℕ) : ℤ :=
  let numerator := supply * price * duration * 10001
  let denominator := budget * 10000
  (numerator + denominator - 1) / denominator

/-- The stake `Node.estimate` computes. -/
def estimateStake (supply budget price : String) (duration : ℕ) : ℤ :=
  roundedStake (decimal supply) (decimal budget) (decimal price) duration

/-! ### The recovery RPC and the helper -/

/-- `Node.rpc_call`, for a configured RPC. -/
def rpcCall : Answer → Except Exc Json
  | .response status (some (.obj fields)) =>
    if 400 ≤ status ∧ status ≤ 599 then
      .error (refuse .rpcUnavailable "Recovery RPC did not return a valid result")
    else if ((Json.obj fields).get? "error").isSome then
      .error (refuse .rpcUnavailable "Recovery RPC did not return a valid result")
    else match (Json.obj fields).get? "result" with
      | some r => .ok r
      | none => .error (refuse .rpcUnavailable "Recovery RPC did not return a valid result")
  | .nested => .error .recursionError
  | .cancelled | .done => .error .cancelled
  | .raised e => .error e
  | _ => .error (refuse .rpcUnavailable "Recovery RPC did not return a valid result")

/-- The chain check of `Node.receipt`. -/
def readRpcChain (chain : String) (a : Answer) : Except Exc Unit := do
  if (← intHex (← rpcCall a)) ≠ decimal chain then
    throw (refuse .rpcChainMismatch "Recovery RPC is connected to another network")

/-- The receipt of `Node.receipt`: none while the transaction is not mined. -/
def readReceipt (a : Answer) : Except Exc (Option Json) := do
  match ← rpcCall a with
  | .null => return none
  | r => return some (← objectResponse r)

/-- `Helper.request`, for a configured helper. -/
def helperRequest : Answer → Except Exc Json
  | .response status body =>
    if status = 401 ∨ status = 403 then
      .error (refuse .helperAuth "Node helper authentication failed; check HELPER_TOKEN")
    else if ¬ (200 ≤ status ∧ status < 300) then
      .error (refuse .helperRejected "Node operation failed; inspect the activity log")
    else match body with
      | some data => objectResponse data
      | none => .error (refuse .helperUnreachable
          "Cannot reach the local node management helper")
  | .oversized => .error (refuse .helperProtocol
      "Node helper response exceeded the size limit")
  | .nested => .error .recursionError
  | .transport | .timeout => .error (refuse .helperUnreachable
      "Cannot reach the local node management helper")
  | .cancelled | .done => .error .cancelled
  | .raised e => .error e

end MorpheusGateway
