/-
# Await points and events

`Site` lists the places where the gateway's code awaits, each with the local
variables that are used after it.  `Event` lists the changes the code makes to
the shared state, one for each kind of statement that makes one; a write of a
session record also says which statement of the source makes it (`Writer`).
`apply` is what an event does.

A read or a write of the store may fail.  `StoreCall` names the operations that
do so by the place they stand in, because three places of the source do not survive
it: the policy read between `waiting += 1` and its `try`, and the writes that the
error handlers of a chat request make before their cleanup.  A third one, the
operations of `_restart` outside its `try`, leaves the gateway in maintenance.
-/

import MorpheusGateway.Coroutine.Contract
import MorpheusGateway.World

namespace MorpheusGateway

/-- A store operation that may raise. -/
inductive StoreCall : Type where
  | read
  | write
  /-- The policy read of `acquire` before its `try`. -/
  | queueRead
  /-- An operation of `invalidate` in an error handler of a chat request. -/
  | handler
  /-- The first write of `restart`, and of `_restart` the policy read before its `try` and
  the write after it. -/
  | restart
  deriving DecidableEq

/-- Who asks for the node's identity.  `acquire` holds a reserved record meanwhile. -/
inductive Asker : Type where
  | recover | recoverOperation (op : Operation) (rest : List Operation) | tick
  | acquire (row : Row) | opening | close | bind | sweep | treasury | restart | status

/-- The variables `_open` reads before its first chain reads: the policy, the
model's settings and the live records. -/
structure Preflight where
  policy : Policy
  model : ModelPolicy
  rows : List Row

/-- Whose transactions are judged by their receipts, and the records behind it in the
list of the loop. -/
inductive Judged : Type where
  | closing (row : Row) (truth : Json)
  | opening (row : Row) (rest : List Row)
  | withdrawal (op : Operation) (rest : List Operation)

/-- The await points. -/
inductive Site : Type where
  | lock
  | identity (who : Asker)
  | pause
  -- `_open`
  | openModel (modelId : String) (offset : ℕ)
  | openBids (l : Preflight)
  | openBid (l : Preflight) (bid : String)
  | openBalances (l : Preflight)
  | openSupply (l : Preflight) (balances : Balances)
  | openBudget (l : Preflight) (balances : Balances)
  | openStakes (l : Preflight) (balances : Balances) (estimate : ℤ)
  | openPost (row : Row) (duration : ℕ) (limit : ℤ)
  | openRead (row : Row)
  -- `acquire`; `later` is where its loop is not followed any further
  | acquireRead (row : Row)
  | joinOpener (opener : ℕ)
  | later
  -- `_close`
  | closeRead (row : Row)
  | closePost (row : Row)
  | closedRead (row : Row)
  -- `bind`, `reconcile`, `transaction_state`
  | bindRead (row : Row)
  | rowJournal (row : Row)
  | truthRead (row : Row)
  | rpcChain (j : Judged) (seen : List (String × Option Json)) (tx : String)
  | receipt (j : Judged) (seen : List (String × Option Json)) (tx : String)
  -- `sweep_wallet` and `treasury`
  | walletSessions (offset : ℕ)
  | withdrawalJournal (op : Operation) (rest : List Operation)
  | treasuryStakes
  | treasuryBalances (stakes : Stakes)
  | withdrawPost (op : Operation)
  | withdrawnStakes (op : Operation)
  | withdrawnBalances (op : Operation)
  -- `recover`, `tick`, `_restart`, `status`
  | recoverHelper (op : Operation) (rest : List Operation)
  | recoverBalances (op : Operation) (rest : List Operation)
  | balances
  | stakes
  | helperStatus
  | drained (immediate : Bool)
  | drainedLock
  | helperRestart (op : Operation)
  -- chat requests
  | requestBody
  | dispatch (row : Row) (model : String) (call : ChatCall)
  | responseBody
  | respond
  | stream
  | send
  | upstreamClose
  | joinCleanup (handle : ℕ)

/-- Which statement of the source writes a session record. -/
inductive Writer : Type where
  | recover
  | rebalance
  /-- `acquire` after its chain read: used, near expiry or found closed. -/
  | acquired
  | quarantine
  /-- The `opening` record, under the limits of this preflight. -/
  | openStart (l : Preflight) (balances : Balances) (stakes : Stakes) (estimate limit : ℤ)
  /-- The session ID of the opening POST. -/
  | openBound
  | openDone
  | openFailed
  | openBroken
  | release
  | invalidate
  /-- `_close` of a leased record. -/
  | closeActive
  /-- `closing`, over a record that was in this state when it was read. -/
  | closeIntent (was : RowState)
  | closePosted
  | closeFailed
  | closeBroken
  /-- `record_closed` after the first read, of a record that was in this state. -/
  | closeFound (was : RowState)
  | closeDone
  | closeError
  | closeRequested
  | closeUnverified
  | bind
  -- The passes of `reconcile`, with the copy of the record that the pass last read; the
  -- third one lists its records at its start.
  | journalPass (copy : Row)
  | truthPass (copy : Row)
  | truthPassError (copy : Row)
  | receiptPass (copy : Row) (rest : List Row)
  | receiptPassError (copy : Row) (rest : List Row)
  | candidate
  | orphan
  | sweepError
  | tick

/-- Which part of the source writes an operation record. -/
inductive OperationWriter : Type where
  | recover
  /-- A new withdrawal, and the outcome of its POST. -/
  | withdraw
  /-- The reconciliation loop of `treasury`. -/
  | settle
  | restart

/-- The changes of the shared state. -/
inductive Event : Type where
  -- the store
  | put (by_ : Writer) (row : Row)
  | prune
  | putOperation (by_ : OperationWriter) (op : Operation)
  | policy (p : Policy)
  | installation (i : Identity)
  | walletScan (offset : ℕ)
  | lastWithdrawal
  | cooldown (model provider : String) (until_ : ℚ)
  | openingFailed (model : String) (f : OpeningFailure)
  | openingSucceeded (model : String)
  | key (k : ApiKey)
  | attempt (a : Attempt)
  | interruptAttempts
  | appliedRating (revision : ℕ)
  -- the memory
  | lock
  | unlock
  | reserve (id : RowId)
  | unreserve (id : RowId)
  | wait
  | unwait
  | maintenance (on : Bool)
  | identity (i : Identity)
  | ready (on : Bool)
  | opener (model : String) (handle : ℕ)
  | dropOpener (model : String)
  | startClosing (id : RowId)
  | stopClosing (id : RowId)
  | sweepTask (handle : ℕ)
  | swept
  | storeError (on : Bool)
  | trimRate (key : String)
  | rate (key : String)
  | admitted (request : ℕ) (key : String) (limit : ℕ)
  | dismiss (key : String)
  | cleaned (c : Cleanup)
  | uuid (n : ℕ)
  | spawn (handle : ℕ) (w : Work)
  | finish (handle : ℕ) (r : Except Exc Unit)

/-- The time passing, on the wall clock and on the monotonic one, which never goes back. -/
structure Drift where
  wall : ℚ
  monotonic : ℚ
  forward : 0 ≤ monotonic := by decide

abbrev LogEntry := Entry Event StoreCall Site Answer Program
abbrev LogItem := Item Event StoreCall Site Answer Program Drift

/-- A coroutine of the gateway that raises `ε`. -/
abbrev OpE (ε α : Type) := Coro World Event StoreCall Site Answer ε α

/-- A coroutine of the gateway. -/
abbrev Op (α : Type) := OpE Exc α

namespace World

variable (s : World)

def setStore (f : Store → Store) : World := { s with store := f s.store }

def setMemory (f : Memory → Memory) : World := { s with memory := f s.memory }

/-- Whether the records of this age may be deleted. -/
def old (createdAt : ℚ) : Bool := createdAt < s.now - 30 * 86400

/-- `Store.prune`. -/
def prune : World := s.setStore fun st => { st with
  sessions := st.sessions.filter fun r => !(r.state.terminal && s.old r.createdAt)
  operations := st.operations.filter fun o =>
    !((o.state = .succeeded || o.state = .failed || o.state = .interrupted) && s.old o.createdAt)
  attempts := st.attempts.filter fun a => !(a.state ≠ .started && s.old a.createdAt) }

/-- The state after an event of task `t`. -/
def apply (t : ℕ) : Event → World
  | .put _ row => s.setStore fun st => { st with sessions := st.sessions.put row }
  | .prune => s.prune
  | .putOperation _ op => s.setStore fun st => { st with operations := st.operations.put op }
  | .policy p => s.setStore fun st => { st with
      policy := p, saved := p :: st.saved, policy_saved := List.mem_cons_self }
  | .installation i => s.setStore fun st => { st with installation := some i }
  | .walletScan offset => s.setStore fun st => { st with walletScan := offset }
  | .lastWithdrawal => s.setStore fun st => { st with lastWithdrawal := s.now }
  | .cooldown model provider until_ => s.setStore fun st => { st with
      cooldowns := Function.update st.cooldowns (model ++ provider) (some until_) }
  | .openingFailed model f => s.setStore fun st => { st with
      openingFailures := Function.update st.openingFailures model (some f) }
  | .openingSucceeded model => s.setStore fun st => { st with
      openingFailures := Function.update st.openingFailures model none }
  | .key k => s.setStore fun st => { st with keys := st.keys.put k }
  | .attempt a => s.setStore fun st => { st with attempts := st.attempts.put a }
  | .interruptAttempts => s.setStore fun st => { st with
      attempts := (st.attempts.rows.filter fun a => a.state = .started).foldl
        (fun table a => table.put { a with state := .interrupted }) st.attempts }
  | .appliedRating revision => s.setStore fun st => { st with appliedRating := some revision }
  | .lock => s.setMemory fun m => { m with lock := some t }
  | .unlock => s.setMemory fun m => { m with lock := none }
  | .reserve id => s.setMemory fun m => { m with active := insert id m.active }
  | .unreserve id => s.setMemory fun m => { m with active := m.active.erase id }
  | .wait => s.setMemory fun m => { m with waiting := m.waiting + 1 }
  | .unwait => s.setMemory fun m => { m with waiting := m.waiting - 1 }
  | .maintenance on => s.setMemory fun m => { m with maintenance := on }
  | .identity i => s.setMemory fun m => { m with identity := some i }
  | .ready on => s.setMemory fun m => { m with ready := on }
  | .opener model handle => s.setMemory fun m => { m with
      opening := Function.update m.opening model (some handle) }
  | .dropOpener model => s.setMemory fun m => { m with
      opening := Function.update m.opening model none }
  | .startClosing id => s.setMemory fun m => { m with closing := insert id m.closing }
  | .stopClosing id => s.setMemory fun m => { m with closing := m.closing.erase id }
  | .sweepTask handle => s.setMemory fun m => { m with sweepTask := some handle }
  | .swept => s.setMemory fun m => { m with lastSweep := s.now }
  | .storeError on => s.setMemory fun m => { m with storeError := on }
  | .trimRate key => s.setMemory fun m => { m with
      rates := Function.update m.rates key ((m.rates key).dropWhile (· < s.monotonic - 60)) }
  | .rate key => s.setMemory fun m => { m with
      rates := Function.update m.rates key (m.rates key ++ [s.monotonic]) }
  | .admitted _ key _ => s.setMemory fun m => { m with
      keyActive := Function.update m.keyActive key (m.keyActive key + 1) }
  | .dismiss key => s.setMemory fun m => { m with
      keyActive := Function.update m.keyActive key (m.keyActive key - 1) }
  | .cleaned c => s.setMemory fun m => { m with cleaned := insert c.request m.cleaned }
  | .uuid _ => { s with uuids := s.uuids + 1 }
  | .spawn handle w => s.setMemory fun m => { m with spawned := (handle, w) :: m.spawned }
  | .finish handle r => s.setMemory fun m => { m with
      finished := Function.update m.finished handle (some r) }

/-- A spawned task starts once it was spawned, the worker `run` once in a
process and before everything else, a request at any time after that. -/
def begin (_ : ℕ) : Program → Option World
  | .run => if s.memory.booted then none else some (s.setMemory fun m => { m with booted := true })
  | .task handle w =>
      if (handle, w) ∈ s.memory.spawned then
        some (s.setMemory fun m => { m with spawned := m.spawned.erase (handle, w) })
      else none
  | _ => if s.memory.booted then some s else none

/-- Time passes. -/
def drift (d : Drift) : World :=
  { s with now := s.now + d.wall, monotonic := s.monotonic + d.monotonic }

/-- A crash keeps the store, the clocks and the supply of IDs. -/
def reset : World := { s with memory := {} }

/-- The answer a finished task gives to those who join it. -/
def joined (handle : ℕ) : Answer → Bool
  | .done => s.memory.finished handle = some (.ok ())
  | .raised e => s.memory.finished handle = some (.error e)
  | _ => false

/-- Which answers an await may get.  Any await may be cancelled. -/
def legal (_ : ℕ) (i : Site) (a : Answer) : Bool :=
  a = .cancelled || match i with
    | .lock => a = .done && s.memory.lock = none
    | .drainedLock => (a = .done && s.memory.lock = none) || a = .timeout
    | .pause | .requestBody | .respond | .send => a = .done
    | .later => false
    | .joinOpener handle => s.joined handle a || a = .timeout
    | .joinCleanup handle => s.joined handle a
    | .drained immediate => (a = .done && (immediate || s.memory.active = ∅)) || a = .timeout
    | .responseBody | .stream | .upstreamClose => match a with
      | .done | .transport | .timeout | .raised _ => true
      | _ => false
    | _ => match a with
      | .response .. | .oversized | .nested | .transport | .timeout => true
      | _ => false

end World
end MorpheusGateway
