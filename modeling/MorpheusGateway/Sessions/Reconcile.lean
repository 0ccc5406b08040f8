/-
# Reconciliation

`Sessions.reconcile` in its three passes: the native journal, the chain, and the
receipts of openings without a session ID.  `transactionState` is the verdict on a
list of transactions that the last two and `treasury` share.
-/

import MorpheusGateway.Sessions.Acquire

namespace MorpheusGateway
namespace Sessions

open Coro (fails perform raise suspend ofExcept)

variable (cfg : Config)

/-- The verdict on a list of transactions. -/
inductive TransactionState : Type where
  | unknown
  | succeeded
  | failed
  | pending
  deriving DecidableEq

/-- What iterating over a JSON value yields. -/
def iterate : Json → Except Exc (List Json)
  | .arr xs => .ok xs
  | .str s => .ok (s.toList.map fun c => .str (String.ofList [c]))
  | .obj fields => .ok (fields.map fun p => .str p.1)
  | _ => .error .typeError

/-- `int(r["status"], 16)` of a mined receipt. -/
def receiptStatus (r : Json) : Except Exc ℤ := do intHex (← item r "status")

/-- `any(r and int(r["status"], 16) == 1 for r in receipts)`. -/
def anySucceeded : List (Option Json) → Except Exc Bool
  | [] => .ok false
  | r :: rest => do
    match r.filter Json.truth with
    | some r => if (← receiptStatus r) = 1 then return true else anySucceeded rest
    | none => anySucceeded rest

/-- `all(r and int(r["status"], 16) == 0 for r in receipts)`. -/
def allReverted : List (Option Json) → Except Exc Bool
  | [] => .ok true
  | r :: rest => do
    match r.filter Json.truth with
    | some r => if (← receiptStatus r) = 0 then allReverted rest else return false
    | none => return false

/-- The verdict on the receipts. -/
def verdict (receipts : List (Option Json)) : Except Exc TransactionState := do
  -- Replacements can leave earlier hashes unmined; a mined successful receipt wins.
  if ← anySucceeded receipts then return .succeeded
  if ← allReverted receipts then return .failed
  return .pending

/-- The hash of a recorded transaction. -/
def transactionHash (tx : Json) : Json := if tx.isObject then tx.get "hash" else tx

/-- `Node.receipt`. -/
def receipt (j : Judged) (seen : List (String × Option Json)) (tx chain : String) :
    Op (Option Json) := do
  if ¬ cfg.rpcConfigured then
    raise (refuse .rpcNotConfigured
      "Configure RPC_URL for transaction receipt reconciliation")
  ofExcept (readRpcChain chain (← suspend (.rpcChain j seen tx)))
  ofExcept (readReceipt (← suspend (.receipt j seen tx)))

/-- The loop of `transaction_state`, with the receipts read so far. -/
def judge (j : Judged) (seen : List (String × Option Json)) : List Json → Op TransactionState
  | [] => ofExcept (verdict (seen.map Prod.snd))
  | tx :: rest => do
    let hash := (transactionHash tx).toStr
    if ¬ isHash hash then
      return .unknown
    match ← memory Memory.identity with
    | none => raise .typeError
    | some identity =>
      let r ← receipt cfg j seen hash identity.chain
      judge j (seen ++ [(hash, r)]) rest

/-- `Sessions.transaction_state`. -/
def transactionState (j : Judged) (transactions : Json) : Op TransactionState := do
  if ¬ transactions.truth then
    return .unknown
  judge cfg j [] (← ofExcept (iterate transactions))

/-- The part of `Sessions.journal` after its guard; errors of the helper are no
answer. -/
def journal (site : Site) : Op (Option Json) := do
  match helperRequest (← suspend site) with
  | .ok progress => return some progress
  | .error (.gateway _) => return none
  | .error e => raise e

/-- The journal says that the operation is over and sent nothing. -/
def journalUnsent (progress : Json) : Bool :=
  (progress.get "completed").truth && progress.get "stage" = .str "not_submitted"

/-- The record as the journal's answer changes it. -/
def journaled (row : Row) (progress : Json) (now : ℚ) : Row :=
  let transactions := progress.getD "transactions" (.arr [])
  if row.state = .openUnknown then
    match sessionId? progress with
    | some sid => { row with transactions, chainId := some (lower sid) }
    | none =>
      if journalUnsent progress then
        { row with transactions, state := .failed,
                   lastError := some "Native journal confirms no transaction was submitted" }
      else { row with transactions }
  else if journalUnsent progress then
    { row with closeTransactions := transactions, state := .draining, retryAt := now + 30 }
  else { row with closeTransactions := transactions }

/-- Whether the first pass has an operation ID to ask the journal about: the
record's own for an opening, `close_operation_id` for a close. -/
def hasJournal (row : Row) : Bool := row.state = .openUnknown || row.closeOperationId.isSome

/-- The first pass: the native journal. -/
def journalPass : List Row → Op Unit
  | [] => return ()
  | row :: rest => do
    if row.state = .openUnknown ∨ row.state = .closePending then
      let progress ← if cfg.helperConfigured ∧ hasJournal row then
        journal (.rowJournal row) else pure none
      if (← getRow row.id) = some row then
        match progress.filter Json.truth with
        | none => pure ()
        | some progress => putRow (.journalPass row) (journaled row progress (← now))
    journalPass rest

/-- The transactions of a close whose receipts are judged. -/
def closeTransactions (row : Row) : Json :=
  if row.closeTransactions.truth then row.closeTransactions
  else .arr (if row.closeTx.truth then [row.closeTx] else [])

/-- The record of a session that the chain knows and that is not closed. -/
def reopened (row : Row) : Row :=
  if row.state = .openUnknown ∨ row.state = .quarantined then { row with state := .opened }
  else row

/-- Store what the chain says of the session, unless the record changed meanwhile. -/
def storeTruth (snapshot row : Row) (truth : Json) : Op Unit := do
  if (← getRow row.id) ≠ some snapshot then
    return ()
  putRow (.truthPass snapshot) { row with
    endsAt := ← truthInt truth "EndsAt"
    stakeWei := (← ofExcept (item truth "Stake")).toStr
    lastError := none }

/-- The `try` block of the second pass. -/
def readTruth (row : Row) : Op Unit := do
  let chainId := row.chainId.getD "None"
  let truth ← ofExcept (readSession chainId (← suspend (.truthRead row)))
  if (← getRow row.id) ≠ some row then
    return ()
  _validateTruth row truth
  if (← truthInt truth "ClosedAt") ≠ 0 then
    discard <| recordClosed (.truthPass row) row truth
  else if row.state = .closePending then
    let verdict ← transactionState cfg (.closing row truth) (closeTransactions row)
    let time ← now
    storeTruth row (if verdict = .failed then { row with state := .draining, retryAt := time + 30 }
      else row) truth
  else
    storeTruth row (reopened row) truth

/-- `except (GatewayError, KeyError, TypeError, ValueError)`. -/
def Exc.isAnswer : Exc → Bool
  | .gateway _ | .keyError | .typeError | .valueError => true
  | _ => false

/-- The second pass: the chain.  Nothing that is caught here is raised after the record
has changed in memory. -/
def truthPass : List Row → Op Unit
  | [] => return ()
  | row :: rest => do
    if row.chainId.isSome ∧ row.retryAt ≤ (← now) then
      match ← (readTruth cfg row).attempt with
      | .ok () => pure ()
      | .error e =>
        if ¬ Exc.isAnswer e then
          raise e
        if (← getRow row.id) = some row then
          discard <| markError (.truthPassError row) row e
    truthPass rest

/-- `[tx for tx in transactions if tx.get("kind") == "open"]`. -/
def openTransactions (transactions : Json) : Except Exc (List Json) := do
  (← iterate transactions).filterM fun tx =>
    if tx.isObject then .ok (tx.get "kind" = .str "open") else .error .attributeError

/-- The `try` block of the third pass, for the first record of its list. -/
def judgeOpening (row : Row) (rest : List Row) : Op Unit := do
  let txs ← ofExcept (openTransactions row.transactions)
  if txs ≠ [] then
    if (← transactionState cfg (.opening row rest) (.arr txs)) = .failed then
      putRow (.receiptPass row rest) { row with
        state := .failed, lastError := some "Opening transaction reverted; safe to retry" }

/-- The third pass: the receipts of openings without a session ID. -/
def receiptPass : List Row → Op Unit
  | [] => return ()
  | row :: rest => do
    if row.state = .openUnknown ∧ row.chainId = none then
      match ← (judgeOpening cfg row rest).attempt with
      | .ok () => pure ()
      | .error (.gateway g) => discard <| markError (.receiptPassError row rest) row (.gateway g)
      | .error e => raise e
    receiptPass rest

/-- `Sessions.reconcile`. -/
def reconcile : Op Unit := do
  journalPass cfg (← sessions)
  truthPass cfg (← sessions)
  receiptPass cfg (← sessions)

end Sessions
end MorpheusGateway
