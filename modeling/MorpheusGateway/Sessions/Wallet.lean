/-
# The wallet scan and withdrawals

`Sessions.sweep_wallet` compares a page of the wallet's on-chain sessions with the
records: a session that may be an uncertain opening becomes its candidate, any
other unknown session becomes an `orphaned` record to be closed.
`Sessions.treasury` settles earlier withdrawals and makes the next one, under the
wallet lock.
-/

import MorpheusGateway.Sessions.Reconcile

namespace MorpheusGateway
namespace Sessions

open Coro (fails perform raise suspend ofExcept)

variable (cfg : Config)

/-- Whether the session may be the opening of the record. -/
def matchesRow (truth : Json) (r : Row) : Except Exc Bool := do
  if lower r.bid = truth.lowerField "BidID" ∧ r.model = truth.lowerField "ModelAgentId" ∧
      r.provider = truth.lowerField "Provider" then
    return inWindow cfg r (← int (truth.getD "OpenedAt" (.num 0)))
  else return false

/-- The record with one more session that may be its opening. -/
def addCandidate (sid : String) (r : Row) : Row :=
  if sid ∈ r.recoveryCandidates then r
  else { r with recoveryCandidates := r.recoveryCandidates ++ [sid] }

/-- Store the records a session may belong to. -/
def putCandidates : List Row → Op Unit
  | [] => return ()
  | r :: rest => do
    putRow .candidate r
    putCandidates rest

/-- The `orphaned` record of an unknown session, if the policy wants it closed. -/
def orphan (sid : String) (truth : Json) : Op Unit := do
  if (← ofExcept (int (truth.getD "ClosedAt" (.num 0)))) ≠ 0 then
    return ()
  let recovery := (← policy).recovery
  let time ← now
  let expired : Bool := (← ofExcept (int (truth.getD "EndsAt" (.num 0)))) ≤ time
  if (expired && recovery.cleanupUntrackedExpired) || recovery.cleanupUntrackedLive then
    let endsAt ← truthInt truth "EndsAt"
    let stake ← ofExcept (item truth "Stake")
    let row : Row :=
      { id := .wallet sid, chainId := some sid, model := truth.lowerField "ModelAgentId",
        bid := truth.lowerField "BidID", provider := truth.lowerField "Provider",
        state := .orphaned, createdAt := time, lastUsed := time, endsAt,
        stakeWei := stake.toStr,
        retryAt := if expired then 0 else time + recovery.orphanGraceSeconds }
    _validateTruth row truth
    putRow .orphan row
    event

/-- One session of the page; the uncertain records are returned with their
candidates. -/
def scanSession (known : List (Option String)) (uncertain : List Row) (truth : Json) :
    Op (List Row) := do
  let sid := truth.lowerField "Id"
  let wallet := (← memory Memory.identity).map Identity.wallet
  if ¬ isHash sid ∨ some (truth.lowerField "User") ≠ wallet ∨ some sid ∈ known then
    return uncertain
  let matching ← ofExcept (uncertain.filterM (matchesRow cfg truth))
  if matching ≠ [] then
    -- Don't choose between multiple candidates.
    putCandidates (matching.map (addCandidate sid))
    return uncertain.map fun r => if r ∈ matching then addCandidate sid r else r
  orphan sid truth
  return uncertain

/-- The loop of `sweep_wallet` over its page. -/
def scan (known : List (Option String)) : List Row → List Json → Op Unit
  | _, [] => return ()
  | uncertain, truth :: rest => do
    match ← (scanSession cfg known uncertain truth).attempt with
    | .ok uncertain => scan known uncertain rest
    | .error e =>
      if ¬ Exc.isAnswer e then
        raise e
      event
      scan known uncertain rest

/-- The records with exactly one candidate are bound to it. -/
def bindCandidates : List Row → Op Unit
  | [] => return ()
  | row :: rest => do
    match row.recoveryCandidates with
    | [sid] =>
      if row.state = .openUnknown ∧ row.chainId = none then
        match ← (bind cfg row.id sid).attempt with
        | .ok _ => pure ()
        | .error (.gateway g) => discard <| markError .sweepError row (.gateway g)
        | .error e => raise e
    | _ => pure ()
    bindCandidates rest

/-- `Sessions.sweep_wallet`. -/
def sweepWallet : Op Unit := do
  let identity ← verifyIdentity cfg .sweep
  let offset ← fetch (·.store.walletScan)
  let batch ← ofExcept (readWalletSessions identity.wallet offset
    (← suspend (.walletSessions offset)))
  let known := (← sessions).map Row.chainId
  let uncertain := (← sessions).filter fun r => r.state = .openUnknown && r.chainId.isNone
  scan cfg known uncertain batch
  store (.walletScan (if batch.length = 100 then offset + batch.length else 0))
  -- Only resolve after a complete scan.
  if batch.length < 100 then
    bindCandidates cfg (← sessions)

/-- `progress.get("http_status") == 200`. -/
def isStatus200 (progress : Json) : Bool :=
  match progress.get "http_status" with
  | .num n => n = 200
  | .float _ v => v = .finite 200
  | _ => false

/-- A withdrawal whose journal is read: settled (`true`), or to be judged by its
receipts. -/
def journalWithdrawal (op : Operation) (rest : List Operation) : Op (Operation × Bool) := do
  let progress ← if cfg.helperConfigured then journal (.withdrawalJournal op rest) else pure none
  match progress.filter Json.truth with
  | none => return (op, false)
  | some progress =>
    let op := { op with transactions := progress.getD "transactions" (.arr []) }
    if (progress.get "completed").truth ∧ isStatus200 progress then
      let op := { op with state := .succeeded,
                          message := "Native journal confirms mined withdrawal" }
      store (.putOperation .settle op)
      return (op, true)
    if journalUnsent progress then
      let op := { op with state := .failed,
                          message := "Native journal confirms no withdrawal submission" }
      store (.putOperation .settle op)
      return (op, true)
    store (.putOperation .settle op)
    return (op, false)

/-- The reconciliation loop of `treasury`. -/
def settleWithdrawals : List Operation → Op Unit
  | [] => return ()
  | op :: rest => do
    if op.unresolved then
      let (op, settled) ← journalWithdrawal cfg op rest
      if ¬ settled then
        let verdict ← transactionState cfg (.withdrawal op rest) op.transactions
        match verdict with
        | .succeeded =>
          store (.putOperation .settle
            { op with state := .succeeded, message := "Withdrawal confirmed" })
        | .failed =>
          store (.putOperation .settle { op with
            state := .failed, message := "Withdrawal reverted; will retry after backoff" })
        | _ => raise (refuse .withdrawalPending
            "A prior withdrawal is still being reconciled; no duplicate was sent")
    settleWithdrawals rest

/-- The withdrawal POST and the reads after it. -/
def submitWithdrawal (op : Operation) : OpE (Operation × Exc) Unit := do
  let answer ← suspend (.withdrawPost op)
  let result ← (ofExcept (request (.withdraw op.id) answer)).mapError fun e => (op, e)
  let tx := (result.getD "tx" (.str "")).toStr
  if ¬ isHash tx then
    raise (op, refuse .nodeProtocol "Withdrawal response did not include a transaction ID")
  let op := { op with
    state := .succeeded
    transactions := .arr [.obj [("kind", .str "withdraw"), ("hash", result.get "tx")]]
    message := "MOR withdrawal confirmed" }
  (store (.putOperation .withdraw op)).mapError fun e => (op, e)
  discard <| (ofExcept (readStakes (← suspend (.withdrawnStakes op)))).mapError fun e => (op, e)
  discard <| (ofExcept (readBalances (← suspend (.withdrawnBalances op)))).mapError
    fun e => (op, e)
  storeOther.mapError fun e => (op, e)

/-- The handlers around the withdrawal POST. -/
def withdrawalFailed : Operation × Exc → Op Unit
  | (op, .gateway g) => do
    if op.state ≠ .succeeded then
      store (.putOperation .withdraw { op with
        state := if g.outcome = .notSubmitted then .failed else .uncertain
        transactions := g.transactions
        message := g.message })
    raise (.gateway g)
  | (op, e) => do
    if op.state ≠ .succeeded then
      store (.putOperation .withdraw { op with state := .uncertain })
    raise e

/-- The part of `treasury` that decides on a withdrawal and makes it. -/
def withdraw (manual : Bool) (recovery : RecoveryPolicy) (stakes : Stakes)
    (balances : Balances) : Op Unit := do
  if !manual && !recovery.autoWithdraw then
    return ()
  let last ← fetch (·.store.lastWithdrawal)
  if !manual && decide ((← now) - last < recovery.withdrawalIntervalSeconds) then
    return ()
  if decimal stakes.available < max 1 (decimal recovery.withdrawalMinWei) then
    return ()
  if decimal balances.eth < decimal (← policy).budget.minEthWei then
    raise (refuse .gasHeadroom "Add gas funds before withdrawing eligible MOR")
  if (← sessions).any fun r => r.state.unresolved then
    raise (refuse .walletPending "Reconcile pending wallet operations before withdrawal")
  let id ← uuid
  let op : Operation :=
    { id, kind := .withdraw, state := .submitting, createdAt := ← now,
      message := "Withdrawing eligible MOR to this node's wallet" }
  store (.putOperation .withdraw op)
  store .lastWithdrawal
  (submitWithdrawal op).tryCatch withdrawalFailed
  event

/-- `Sessions.treasury`. -/
def treasury (manual : Bool) : Op Unit := withLock do
  if ← memory Memory.maintenance then
    return ()
  discard <| verifyIdentity cfg .treasury
  let recovery := (← policy).recovery
  settleWithdrawals cfg (← fetch (·.store.operations.rows))
  let stakes ← ofExcept (readStakes (← suspend .treasuryStakes))
  let balances ← ofExcept (readBalances (← suspend (.treasuryBalances stakes)))
  storeOther
  withdraw manual recovery stakes balances

/-- A component of `sweep`: an error of an answer is recorded, not raised. -/
def component (work : Op Unit) : Op Unit := do
  match ← work.attempt with
  | .ok () => return ()
  | .error e =>
    if ¬ Exc.isAnswer e then
      raise e
    event

/-- `Sessions.sweep`. -/
def sweep : Op Unit := do
  component (sweepWallet cfg)
  component (treasury cfg false)
  perform .swept
  storeOther
  store .prune

end Sessions
end MorpheusGateway
