/-
# The gateway's state

The records of the store, the process memory that a restart loses, and the two
clocks.  `Site` lists the places where the code awaits, each with the local
variables that matter after it, `Work` the tasks the process spawns and `Program`
everything that can start.

`Row` is a session record.  A record created by the gateway has a fresh number as
its ID; one that the wallet scan finds is named after its on-chain session.
-/

import MorpheusGateway.Node
import MorpheusGateway.Table
import Mathlib.Data.Finset.Basic

namespace MorpheusGateway

/-- The configuration, as far as the code below reads it. -/
structure Config where
  requestTimeout : ℚ := 120
  openTimeout : ℚ := 180
  acquisitionTimeout : ℚ := 240
  recoveryInterval : ℚ := 60
  requireGuards : Bool := true
  rpcConfigured : Bool := false
  helperConfigured : Bool := false

/-! ### Records -/

/-- The name of a session record: a fresh `uuid`, or `wallet-` and the digits of
an on-chain session ID. -/
inductive RowId : Type where
  | uuid (n : ℕ)
  | wallet (sid : String)
  deriving DecidableEq

/-- The `state` of a session record; `opened` is the source's `open`. -/
inductive RowState : Type where
  | opening | openUnknown | opened | quarantined | orphaned | draining
  | closing | closePending | closed | failed
  deriving DecidableEq

/-- The states `Store.sessions` leaves out. -/
def RowState.terminal : RowState → Bool
  | closed | failed => true
  | _ => false

/-- The states in which a wallet transaction of the record may be pending. -/
def RowState.unresolved : RowState → Bool
  | opening | openUnknown | closing | closePending => true
  | _ => false

/-- A session record. -/
structure Row where
  id : RowId
  chainId : Option String := none
  model : String
  provider : String
  bid : String
  state : RowState
  createdAt : ℚ
  lastUsed : ℚ
  endsAt : ℤ := 0
  stakeWei : String
  transactions : Json := .arr []
  retryAt : ℚ := 0
  failures : ℕ := 0
  lastError : Option String := none
  closeReason : Option String := none
  closeOperationId : Option ℕ := none
  closeTx : Json := .null
  closeTransactions : Json := .arr []
  openedAt : ℤ := 0
  closedAt : ℤ := 0
  recoveryCandidates : List String := []
  deriving DecidableEq

/-- What an operation record is about. -/
inductive OpKind : Type where
  | withdraw | restart | applyRating
  deriving DecidableEq

/-- The `state` of an operation record. -/
inductive OpState : Type where
  | submitting | uncertain | pending | succeeded | failed
  | queued | draining | restarting | interrupted
  deriving DecidableEq

/-- An operation record: a withdrawal or a node restart. -/
structure Operation where
  id : ℕ
  kind : OpKind
  state : OpState
  createdAt : ℚ
  transactions : Json := .arr []
  message : String := ""
  deriving DecidableEq

/-- A withdrawal whose outcome is not known. -/
def Operation.unresolved (op : Operation) : Bool :=
  op.kind = .withdraw && (op.state = .uncertain || op.state = .pending || op.state = .submitting)

/-- The backoff record of a model's failed openings. -/
structure OpeningFailure where
  revision : ℕ
  failures : ℕ
  retryAt : ℚ
  error : GatewayError

/-- An application's API key, stored under the digest of its token.  Digests are
represented by what they are the digest of. -/
structure ApiKey where
  token : String
  id : String
  models : List String := []
  concurrency : ℕ := 2
  requestsPerMinute : ℕ := 60
  enabled : Bool := true
  lastUsed : Option ℚ := none

/-- The state of an idempotency record. -/
inductive AttemptState : Type where
  | started | completed | interrupted
  deriving DecidableEq

/-- The idempotency record of a chat attempt. -/
structure Attempt where
  id : String × String
  state : AttemptState
  createdAt : ℚ

/-! ### Tasks -/

/-- The variables of a chat request that its `cleanup` reads. -/
structure Cleanup where
  request : ℕ
  key : String
  row : Option Row := none
  upstream : Bool := false
  attempt : Option (String × String) := none
  deriving DecidableEq

/-- The tasks the process spawns. -/
inductive Work : Type where
  | opener (model : String) (revision : ℕ)
  | openerDone (opener : ℕ) (model : String)
  | scheduledClose (id : RowId)
  | sweep
  | treasury
  | restart (op : Operation) (immediate applyRating : Bool)
  | cleanup (c : Cleanup)
  | tick
  deriving DecidableEq

/-- A chat request: the token it carries, its idempotency key, and the model name
and `stream` flag of its body if the body is accepted.  `rounds` bounds how often
the loop of `acquire` is followed. -/
structure ChatCall where
  token : String
  idempotencyKey : Option String := none
  body : Option (String × Bool)
  rounds : ℕ

/-- Everything that can start. -/
inductive Program : Type where
  | run
  | task (handle : ℕ) (w : Work)
  | chat (c : ChatCall)
  | prewarm (model : String) (rounds : ℕ)
  | close (id : RowId) (stopMaintaining : Bool)
  | bind (id : RowId) (chainId : String)
  | putPolicy (p : Policy)
  | editKey (id : String) (models : List String) (concurrency requestsPerMinute : ℕ)
  | revokeKey (id : String)
  | createKey (key : ApiKey) (idempotencyKey : Option String)
  | recoveryRun
  | withdraw
  | restart (immediate applyRating : Bool)
  | status

/-! ### The state -/

/-- The store.  No code reads what `sessions` remembers besides its rows, or the policies
that were `saved` before the present one. -/
structure Store where
  sessions : Ledger Row.id := .empty
  operations : Table Operation.id := .empty
  policy : Policy := {}
  saved : List Policy := [{}]
  policy_saved : policy ∈ saved := by exact List.mem_cons_self
  installation : Option Identity := none
  walletScan : ℕ := 0
  lastWithdrawal : ℚ := 0
  cooldowns : String → Option ℚ := fun _ => none
  openingFailures : String → Option OpeningFailure := fun _ => none
  keys : Table ApiKey.token := .empty
  attempts : Table Attempt.id := .empty
  appliedRating : Option ℕ := none

/-- The memory of the process.  `finished` has the results of the spawned tasks
that ended, `cleaned` the chat requests whose `cleanup` has begun. -/
structure Memory where
  booted : Bool := false
  lock : Option ℕ := none
  active : Finset RowId := ∅
  waiting : ℤ := 0
  maintenance : Bool := false
  identity : Option Identity := none
  ready : Bool := false
  opening : String → Option ℕ := fun _ => none
  closing : Finset RowId := ∅
  sweepTask : Option ℕ := none
  lastSweep : ℚ := 0
  storeError : Bool := false
  keyActive : String → ℤ := fun _ => 0
  rates : String → List ℚ := fun _ => []
  spawned : List (ℕ × Work) := []
  finished : ℕ → Option (Except Exc Unit) := fun _ => none
  cleaned : Finset ℕ := ∅

/-- The whole state; `uuids` is the supply of fresh IDs. -/
structure World where
  store : Store := {}
  memory : Memory := {}
  now : ℚ := 0
  monotonic : ℚ := 0
  uuids : ℕ := 0

namespace World

/-- The session record stored under `id`. -/
def row? (s : World) (id : RowId) : Option Row := s.store.sessions.get id

/-- Every session record ever stored, newest first. -/
def written (s : World) : List Row := s.store.sessions.written

/-- `Store.sessions`: the records that are not terminal, newest first. -/
def sessions (s : World) : List Row := s.store.sessions.rows.filter fun r => !r.state.terminal

end World
end MorpheusGateway
