/-
# The protocol of the tasks

What the source promises about each task without looking at the others: `RowWrite`
says of each writer of a session record from what it makes the record it stores,
`AwaitOk` what is true when a task awaits, `EventOk` what is true when it changes
the state, and `protocol` collects these in a contract.

A writer either reads the record in the same piece (`Fresh`), or writes a copy it
has carried over an await, which the await point of its control point names.  The
protocol does not say that such a copy is still what is stored; nothing in the
source does.
-/

import MorpheusGateway.Protocol.Points

namespace MorpheusGateway

/-- The copy of a record that `_close` holds when it fails: as it was read, or after the
close POST. -/
def CloseCopy (pc : Pc) (row : Row) : Prop :=
  (∃ r a, pc.place = .woken (.closeRead r) a ∧ Kept r row ∧ row.state = r.state) ∨
  (row.state = .closePending ∨ row.state = .draining ∧
      ∃ i a, pc.place = .woken i a ∧ i.label a = some .notSubmitted) ∧
    ∃ r a, (pc.place = .woken (.closePost r) a ∨ pc.place = .woken (.closedRead r) a) ∧ Kept r row

/-- The records of the list are distinct live ones, stored as they are. -/
def Current (st : Store) (rows : List Row) : Prop :=
  (∀ r ∈ rows, st.sessions.get r.id = some r ∧ r.state.terminal = false) ∧
    (rows.map Row.id).Nodup

/-- The records of the list are stored as they are, or the third pass of `reconcile` had
them listed where the task is. -/
def Listed (pc : Pc) (s : World) (rows : List Row) : Prop :=
  Current s.store rows ∨ rows <:+ pc.place.listed

/-- What is true when a task stores a session record. -/
def RowWrite (cfg : Config) (pc : Pc) (s : World) (row : Row) : Writer → Prop
  -- Records read in the same piece.
  | .recover => Fresh s row fun old =>
      (old.state = .opening ∧ row.state = .openUnknown) ∨
      (old.state = .closing ∧ row.state = .closePending)
  | .rebalance | .tick => Fresh s row fun old => old.state = .opened ∧ row.state = .draining
  | .acquired => Fresh s row fun old => old.state = .opened ∧
      (row.state = .opened ∧ s.memory.maintenance = false ∨ row.state = .draining ∨
        row.state = .closed ∧ pc.place.ReadClosed row.id) ∧
      pc.lease = some row.id ∧ ∃ r a, pc.place = .woken (.acquireRead r) a ∧ r.id = row.id
  | .release => Fresh s row fun old => row.state = old.state
  | .invalidate => Fresh s row fun old => row.state = .draining ∧
      old.state ≠ .closed ∧ old.state ≠ .closing ∧ old.state ≠ .closePending ∧
      ∃ r ∈ s.written, r.id = row.id ∧ r.state = .opened
  | .closeActive => Fresh s row fun old => row.state = .draining ∧
      old.state.terminal = false ∧ old.state ≠ .closing ∧ old.state ≠ .closePending
  | .closeRequested => Fresh s row fun old => row.state = .draining ∧
      (old.state = .opened ∨ old.state = .quarantined ∨ old.state = .orphaned)
  | .closeUnverified => Fresh s row fun old => row.state = old.state
  | .journalPass old => s.row? row.id = some old ∧ ∃ a progress time,
      pc.place = .woken (.rowJournal old) a ∧ helperRequest a = .ok progress ∧
      row = Sessions.journaled old progress time ∧
      (old.state = .openUnknown ∨ old.state = .closePending)
  | .truthPass old => s.row? row.id = some old ∧ Kept old row ∧ old.state.terminal = false ∧
      (row.state = old.state ∨
        (old.state = .openUnknown ∨ old.state = .quarantined) ∧ row.state = .opened ∨
        old.state = .closePending ∧ row.state = .draining ∧
          (∃ truth, pc.place.Reverted (.closing old truth)) ∨
        row.state = .closed ∧ pc.place.ReadClosed row.id)
  | .truthPassError old => s.row? row.id = some old ∧ Kept old row ∧ row.state = old.state
  -- Copies carried over an await.
  | .quarantine => row.state = .quarantined ∧ ∃ r a, (pc.place = .woken (.acquireRead r) a ∨
      pc.place = .woken (.identity (.acquire r)) a) ∧ Kept r row ∧ r ∈ s.written ∧
      r.state = .opened
  | .openStart l balances stakes estimate limit => pc.lock = true ∧
      (∃ n, row.id = .uuid n ∧ pc.uuid = some n) ∧ row.state = .opening ∧
      row.chainId = none ∧ row.closeOperationId = none ∧ row.model = l.model.id ∧
      row.stakeWei = toString limit ∧ l.policy = s.store.policy ∧
      (∃ a, pc.place = .woken (.openStakes l balances estimate) a ∧ readStakes a = .ok stakes) ∧
      0 < estimate ∧ estimate ≤ limit ∧
      decimal l.policy.budget.minEthWei ≤ decimal balances.eth ∧
      ∃ staked, Sessions.stakeSum l.rows = .ok staked ∧
        limit = Sessions.stakeLimit l.policy.budget staked stakes balances
  | .openBound => pc.lock = true ∧ row.state = .opening ∧
      ∃ r d limit a sid, pc.place = .woken (.openPost r d limit) a ∧ SameSession r row ∧
        row.closeOperationId = r.closeOperationId ∧ postedId a = some sid ∧
        row.chainId = some (lower sid)
  | .openDone => pc.lock = true ∧ ∃ r a, pc.place = .woken (.openRead r) a ∧ Kept r row ∧
      (row.state = .opened ∨ row.state = .draining ∨
        row.state = .closed ∧ pc.place.ReadClosed row.id)
  | .openFailed => pc.lock = true ∧ (row.state = .openUnknown ∨ row.state = .failed ∧
        ∃ i a, pc.place = .woken i a ∧ i.label a = some .notSubmitted) ∧
      ((∃ r d limit a, pc.place = .woken (.openPost r d limit) a ∧ Kept r row ∧
          postedId a = none) ∨
        ∃ r a, pc.place = .woken (.openRead r) a ∧ Kept r row)
  | .openBroken => pc.lock = true ∧ row.state = .openUnknown ∧
      ((∃ r d limit a, pc.place = .woken (.openPost r d limit) a ∧ SameSession r row ∧
          row.closeOperationId = r.closeOperationId ∧
          (postedId a = none ∧ row.chainId = r.chainId ∨
            ∃ sid, postedId a = some sid ∧ row.chainId = some (lower sid))) ∨
        ∃ r a, pc.place = .woken (.openRead r) a ∧ Kept r row)
  | .closeIntent was => pc.lock = true ∧ row.state = .closing ∧
      (∃ r a, pc.place = .woken (.closeRead r) a ∧ SameSession r row ∧
        row.chainId = r.chainId ∧ r.state = was) ∧
      (∃ n, row.closeOperationId = some n ∧ pc.uuid = some n) ∧
      ClearRows s (some row.id) ∧ ClearOperations s
  | .closePosted => pc.lock = true ∧ row.state = .closePending ∧
      ∃ r a, pc.place = .woken (.closePost r) a ∧ Kept r row ∧
        row.closeTransactions = r.closeTransactions
  | .closeFailed => pc.lock = true ∧ (row.state = .closePending ∨ row.state = .draining ∧
        ∃ i a, pc.place = .woken i a ∧ i.label a = some .notSubmitted) ∧
      ∃ r a, (pc.place = .woken (.closePost r) a ∨ pc.place = .woken (.closedRead r) a) ∧
        Kept r row
  | .closeBroken => pc.lock = true ∧ row.state = .closePending ∧
      ∃ r a, (pc.place = .woken (.closePost r) a ∨ pc.place = .woken (.closedRead r) a) ∧
        Kept r row
  | .closeFound was => pc.lock = true ∧ row.state = .closed ∧ pc.place.ReadClosed row.id ∧
      ∃ r a, pc.place = .woken (.closeRead r) a ∧ Kept r row ∧ r.state = was
  | .closeDone => pc.lock = true ∧ row.state = .closed ∧ pc.place.ReadClosed row.id ∧
      ∃ r a, pc.place = .woken (.closedRead r) a ∧ Kept r row
  | .closeError => pc.lock = true ∧ CloseCopy pc row
  | .bind => (row.state = .opened ∨ row.state = .closed ∧ pc.place.ReadClosed row.id) ∧
      ∃ r a truth openedAt, pc.place = .woken (.bindRead r) a ∧ Kept r row ∧
        row.createdAt = r.createdAt ∧ readSession "" a = .ok truth ∧ Sessions.validTruth s.memory.identity r truth = .ok () ∧
        (item truth "OpenedAt").bind int = .ok openedAt ∧
        Sessions.inWindow cfg r openedAt = true
  | .receiptPass r rest => row.state = .failed ∧ r ∈ s.written ∧ Kept r row ∧
      r.state = .openUnknown ∧ r.chainId = none ∧ pc.place.Reverted (.opening r rest)
  | .receiptPassError r rest => row.state = .openUnknown ∧ row.chainId = none ∧ r ∈ s.written ∧
      Kept r row ∧ r.state = .openUnknown ∧ Listed pc s (r :: rest)
  | .sweepError => row.state = .openUnknown ∧ row.chainId = none ∧
      ∃ r ∈ s.written, Kept r row ∧ r.state = .openUnknown
  -- Made of a record listed in the same piece, in which only `wallet-` records were
  -- replaced by others.
  | .candidate => row.state = .openUnknown ∧ (∃ r ∈ s.written, Kept r row ∧ r.state = .openUnknown) ∧
      ((∃ sid, row.id = .wallet sid) ∨ Fresh s row fun old => old.state = .openUnknown)
  -- A record of a session that no live record carries.
  | .orphan => row.state = .orphaned ∧ row.closeOperationId = none ∧
      (∃ sid, row.id = .wallet sid ∧ row.chainId = some sid) ∧
      ∀ r ∈ s.sessions, r.chainId = row.chainId → r.id = row.id

/-- What is true when a task stores an operation record. -/
def OperationWrite (pc : Pc) (s : World) (op : Operation) : OperationWriter → Prop
  | .recover => op.kind = .withdraw ∧ op.state = .uncertain
  | .restart => op.kind ≠ .withdraw ∨ ∃ immediate, pc.restarting = some (op.kind, immediate)
  | .withdraw => op.kind = .withdraw ∧ pc.lock = true ∧
      ((op.state = .submitting ∧ pc.uuid = some op.id ∧ ClearRows s none ∧
          ∃ stakes a, pc.place = .woken (.treasuryBalances stakes) a) ∨
        ∃ o a, pc.place = .woken (.withdrawPost o) a ∧ op.id = o.id)
  | .settle => op.kind = .withdraw ∧ pc.lock = true ∧
      ∃ i a o rest, pc.place = .woken i a ∧ i.unsettled = some (o :: rest) ∧ o.id = op.id ∧
        (op.unresolved = true ∨ op.state = .succeeded ∨ op.state = .failed ∧
          (i = .withdrawalJournal o rest ∧ answersUnsent a ∨
            pc.place.Reverted (.withdrawal o rest)))

/-- The preflight `l` was checked at the place of `pc`, under the wallet lock. -/
def InPreflight (pc : Pc) (l : Preflight) : Prop :=
  pc.lock = true ∧ ∃ i a, pc.place = .woken i a ∧ i.preflight = some l

/-- The receipts read so far are the answers of the awaits before. -/
def Judging (pc : Pc) (j : Judged) (seen : List (String × Option Json)) (tx : String) : Prop :=
  (∃ rest, j.hashes = seen.map Prod.fst ++ tx :: rest) ∧
  (seen = [] ∨ ∃ seen' tx' a, pc.place = .woken (.receipt j seen' tx') a ∧
    receiptsAfter seen' tx' a = some seen)

/-- The judged withdrawal and those behind it in the list are all that is unresolved; a
judged opening and those behind it are listed. -/
def Settling (pc : Pc) (s : World) : Judged → Prop
  | .opening row rest => Listed pc s (row :: rest)
  | .withdrawal op rest => pc.lock = true ∧
      Narrowed pc s Site.unsettled Operation.unresolved (op :: rest)
  | _ => True

/-- `recover` has dealt with the session records, and `ops` are the operation records it has
still to look at. -/
def Recovering (pc : Pc) (s : World) (ops : List Operation) : Prop :=
  (pc.place = .fresh → RowsRecovered s) ∧
    Narrowed pc s Site.unrecovered Operation.unrecovered ops

/-- The chain read at the place `p` confirmed the record `r`, which was leased for a model
that `modelId` resolved to. -/
structure Confirmed (cfg : Config) (p : Place) (s : World) (modelId : String) (r : Row)
    (a : Answer) : Prop where
  place : p = .woken (.acquireRead r) a
  written : r ∈ s.written
  opened : r.state = .opened
  resolved : ∃ p ∈ s.store.saved, ∃ m, p.resolve modelId = some m ∧ r.model = m.id
  valid : ∃ truth endsAt, readSession "" a = .ok truth ∧
    Sessions.validTruth s.memory.identity r truth = .ok () ∧
    (item truth "EndsAt").bind int = .ok endsAt ∧ s.now + cfg.requestTimeout + 15 < endsAt
  live : closedAt a = some 0

/-- The record that `acquire` hands out in the piece that its confirmation began. -/
structure Lent (cfg : Config) (p : Place) (s : World) (modelId : String) (row : Row) : Prop where
  stored : s.row? row.id = some row
  opened : row.state = .opened
  confirmed : ∃ r a, r.id = row.id ∧ Confirmed cfg p s modelId r a

/-- What is true when a chat request is dispatched to the provider: the record, the
policy and the key are read in the piece that the confirming chain read began. -/
structure Dispatched (cfg : Config) (pc : Pc) (s : World) (row : Row) (modelId : String)
    (call : ChatCall) : Prop where
  lease : pc.lease = some row.id
  lent : Lent cfg pc.place s modelId row
  requested : ∃ p ∈ s.store.saved, ∃ m ∈ p.models, m.enabled = true ∧ m.id = modelId
  running : s.memory.maintenance = false
  unpaused : s.store.policy.paused = false
  enabled : (s.store.policy.resolve modelId).isSome = true
  permitted : s.store.policy.providers.permits row.provider = true
  key : ∃ k, s.store.keys.get call.token = some k ∧ k.enabled = true ∧
    App.inScope k modelId = true

/-- The task restarts the node, at once or when no record is leased. -/
def Pc.Drained (pc : Pc) (s : World) : Prop :=
  ∃ kind immediate, pc.restarting = some (kind, immediate) ∧
    (immediate = true ∨ s.memory.active = ∅)

/-- The task was woken in the middle of confirming a reserved record. -/
def Pc.Borrowing (pc : Pc) : Prop :=
  ∃ row a, pc.place = .woken (.acquireRead row) a ∨ pc.place = .woken (.identity (.acquire row)) a

/-- What is true when a task awaits. -/
def AwaitOk (cfg : Config) (pc : Pc) (s : World) : Site → Prop
  | .identity (.acquire row) | .acquireRead row =>
      pc.lease = some row.id ∧ row ∈ s.written ∧ row.state = .opened
  | .identity .recover => Recovering pc s []
  | .identity (.recoverOperation op rest) | .recoverHelper op rest | .recoverBalances op rest =>
      Recovering pc s (op :: rest)
  | .openBids l => pc.lock = true ∧ ClearRows s none ∧ ClearOperations s ∧ l.rows = s.sessions ∧
      l.rows.length < l.policy.maxSessions ∧
      (l.rows.filter fun r => r.model = l.model.id).length < l.model.maxSessions ∧
      ∃ name, l.policy.resolve name = some l.model
  | .openBid l _ | .openBalances l => InPreflight pc l
  | .openSupply l balances => InPreflight pc l ∧
      ∃ a, pc.place = .woken (.openBalances l) a ∧ readBalances a = .ok balances
  | .openBudget l balances => InPreflight pc l ∧
      ∃ a, pc.place = .woken (.openSupply l balances) a
  | .openStakes l balances _ => InPreflight pc l ∧
      ∃ a, pc.place = .woken (.openBudget l balances) a
  | .openPost row _ limit => pc.lock = true ∧ s.row? row.id = some row ∧ row.state = .opening ∧
      row.chainId = none ∧ row.closeOperationId = none ∧ pc.opening = some row.id ∧
      (∃ n, row.id = .uuid n) ∧ row.stakeWei = toString limit
  | .openRead row => pc.lock = true ∧ s.row? row.id = some row ∧ row.state = .opening ∧
      ∃ r d limit a sid, pc.place = .woken (.openPost r d limit) a ∧ SameSession r row ∧
        row.closeOperationId = r.closeOperationId ∧ postedId a = some sid ∧
        row.chainId = some (lower sid)
  | .closeRead row => pc.lock = true ∧ s.row? row.id = some row ∧ row.id ∉ s.memory.active ∧
      row.chainId.isSome = true ∧ row.state.terminal = false ∧ row.state ≠ .closing ∧
      row.state ≠ .closePending
  | .closePost row => pc.lock = true ∧ s.row? row.id = some row ∧ row.state = .closing ∧
      (∃ n, row.closeOperationId = some n) ∧ ClearRows s (some row.id) ∧ ClearOperations s ∧
      ∃ r a, pc.place = .woken (.closeRead r) a ∧ SameSession r row ∧ row.chainId = r.chainId
  | .closedRead row => pc.lock = true ∧ s.row? row.id = some row ∧ row.state = .closePending ∧
      ∃ r a, pc.place = .woken (.closePost r) a ∧ Kept r row ∧
        row.closeTransactions = r.closeTransactions
  | .bindRead row => row.state = .openUnknown ∧ ∃ old, s.row? row.id = some old ∧
      SameSession old row ∧ row.closeOperationId = old.closeOperationId ∧
      old.state = .openUnknown ∧ row.chainId.isSome = true ∧
      ∀ q ∈ s.sessions, q.id ≠ row.id → q.chainId ≠ row.chainId
  | .rowJournal row => row ∈ s.written ∧ (row.state = .openUnknown ∨ row.state = .closePending)
  | .truthRead row => row ∈ s.written
  | .rpcChain j seen tx => Judging pc j seen tx ∧ Settling pc s j
  | .receipt j seen tx => (∃ a, pc.place = .woken (.rpcChain j seen tx) a) ∧ Settling pc s j
  | .withdrawalJournal op rest => pc.lock = true ∧
      Narrowed pc s Site.unsettled Operation.unresolved (op :: rest)
  | .treasuryStakes | .treasuryBalances _ => pc.lock = true ∧
      Narrowed pc s Site.unsettled Operation.unresolved []
  | .withdrawPost op => pc.lock = true ∧ s.store.operations.get op.id = some op ∧
      op.kind = .withdraw ∧ op.state = .submitting ∧ ClearRows s none ∧
      pc.withdrawal = some op.id ∧ ∃ stakes a, pc.place = .woken (.treasuryBalances stakes) a
  | .dispatch row modelId call => Dispatched cfg pc s row modelId call
  | .drained _ => pc.place = .fresh ∧ pc.stuck = false ∧ pc.restarting.isSome = true
  | .drainedLock => pc.place.inTime = true ∧ pc.stuck = false ∧ pc.Drained s
  | .helperRestart op => pc.lock = true ∧ (∃ immediate, pc.restarting = some (op.kind, immediate)) ∧
      (pc.place = .woken .drainedLock .done ∨ pc.place.inTime = true ∧ pc.Drained s)
  | _ => True

/-- What is true when a task is suspended. -/
def ParkOk (cfg : Config) (pc : Pc) (s : World) (i : Site) : Prop :=
  AwaitOk cfg pc s i ∧ pc.begun = none

/-- No backoff keeps the model from being opened. -/
def Due (s : World) (model : String) : Prop :=
  ∀ f, s.store.openingFailures model = some f → f.revision = s.store.policy.revision →
    f.retryAt ≤ s.now

/-- The number of failed openings of the model in a row, counted up to eight. -/
def failuresOf (s : World) (model : String) (revision : ℕ) : ℕ :=
  match s.store.openingFailures model with
  | some f => if f.revision = revision then f.failures else 0
  | none => 0

/-- The task opens a session of the model, and was started under this revision. -/
def Pc.Opening (pc : Pc) (model : String) (revision : ℕ) : Prop :=
  ∃ handle, pc.task = some (handle, .opener model revision)

/-- What is true when a task changes the state. -/
def EventOk (cfg : Config) (pc : Pc) (s : World) : Event → Prop
  | .put w row => RowWrite cfg pc s row w
  | .putOperation w op => OperationWrite pc s op w
  | .installation _ => s.store.installation = none
  | .identity i => ∃ j, s.store.installation = some j ∧ j.wallet = i.wallet
  | .policy p => p.revision = s.store.policy.revision + 1
  | .attempt a => a.state = .started → s.store.attempts.get a.id = none
  | .openingFailed model f => pc.Opening model f.revision ∧
      f.failures = min (failuresOf s model f.revision + 1) 8 ∧
      f.retryAt = s.now + min 300 (5 * 2 ^ f.failures) ∧ f.error.outcome = .notSubmitted
  | .openingSucceeded model => (∃ revision, pc.Opening model revision) ∧
      ((∃ row, pc.place.Obtained s row) ∨ pc.place.catalog = true)
  | .appliedRating _ => pc.restarting.isSome = true
  | .opener model handle => ∃ revision, pc.begun = some (handle, .opener model revision)
  | .sweepTask handle => ∃ w, pc.begun = some (handle, w) ∧ w.slot = some .sweep
  | .dropOpener model => ∃ opener, s.memory.opening model = some opener ∧
      ((s.memory.finished opener).isSome = true ∨
        ∃ handle, pc.task = some (handle, .openerDone opener model))
  | .lock => s.memory.lock = none ∧ pc.lock = false
  | .unlock => pc.lock = true
  | .reserve id => id ∉ s.memory.active ∧ pc.lease = none ∧
      (s.memory.maintenance = false ∨ pc.Borrowing)
  | .unreserve id => pc.lease = some id
  | .wait => pc.waits = false ∧ ∀ call idem, pc.call = some call →
      App.given call.idempotencyKey = some idem →
      ∃ request key, pc.key = some (request, key) ∧ pc.marked = some (key, idem)
  | .unwait => pc.waits = true
  | .trimRate _ | .rate _ => pc.call.isSome = true ∧ pc.rated = false
  | .admitted request key limit => pc.uuid = some request ∧ pc.key = none ∧ pc.lease = none ∧
      pc.pledge = none ∧ s.memory.keyActive key < limit
  | .dismiss key => ∃ request, pc.key = some (request, key) ∧ pc.cleaning = true ∧
      request ∈ s.memory.cleaned
  | .cleaned c => c.request ∉ s.memory.cleaned ∧ pc.cleaning = false ∧
      (pc.key = some (c.request, c.key) ∧ pc.lease = c.row.map Row.id ∨
        (pc.pledge = some c ∨ pc.Joined c) ∧ pc.key = none ∧ pc.lease = none)
  | .uuid n => n = s.uuids
  | .spawn handle (.cleanup c) => pc.uuid = some handle ∧ pc.cleaning = false ∧ pc.pledge = none ∧
      (pc.key = some (c.request, c.key) ∧ pc.lease = c.row.map Row.id ∨
        c.request ∈ s.memory.cleaned ∧ pc.key = none ∧ pc.lease = none)
  | .spawn handle (.restart op _ _) => pc.uuid = some handle ∧ op.kind ≠ .withdraw ∧
      pc.claimed = true
  | .maintenance on => if on then s.memory.maintenance = false else pc.restarting.isSome = true
  | .spawn handle (.opener model revision) => pc.uuid = some handle ∧ pc.begun = none ∧
      s.memory.opening model = none ∧ revision = s.store.policy.revision ∧ Due s model
  | .spawn handle .sweep | .spawn handle .treasury => pc.uuid = some handle ∧ pc.begun = none ∧
      s.memory.Free .sweep
  | .spawn handle (.openerDone opener _) => pc.uuid = some handle ∧
      (s.memory.finished opener).isSome = true
  | .spawn handle _ => pc.uuid = some handle
  | .finish handle _ => ∃ w, pc.task = some (handle, w) ∧
      ∀ c, w = .cleanup c → c.request ∈ s.memory.cleaned
  | _ => True

/-- What is true when a task ends: it has given back what it held, unless a store operation
failed in a place that does not survive it. -/
structure Settled (pc : Pc) (s : World) : Prop where
  lock : pc.lock = false
  cleaning : pc.cleaning = false
  waits : pc.leaks = true ∨ pc.waits = false
  free : pc.leaks = true ∨ pc.lease = none ∧ pc.key = none ∨
    ∃ request key, pc.key = some (request, key) ∧ request ∈ s.memory.cleaned
  pledge : ∀ c, pc.pledge = some c → c.request ∈ s.memory.cleaned
  restarting : pc.stuck = true ∨ pc.restarting = none ∧ pc.claimed = false
  begun : pc.begun = none

/-- What is true of each log entry. -/
def EntryOk (cfg : Config) (pc : Pc) (s : World) : LogEntry → Prop
  | .emit e => EventOk cfg pc s e
  | .park i => ParkOk cfg pc s i
  | .stop => Settled pc s
  | _ => True

/-- What every change of the state respects: nothing written, saved or cleaned up is
forgotten, and a changed policy has a higher revision. -/
structure Grows (s s' : World) : Prop where
  written : s.written ⊆ s'.written
  saved : s.store.saved ⊆ s'.store.saved
  cleaned : s.memory.cleaned ⊆ s'.memory.cleaned
  policy : s.store.policy.revision < s'.store.policy.revision ∨ s'.store.policy = s.store.policy

/-- The protocol. -/
def protocol (cfg : Config) : Contract World Event StoreCall Site Answer Program Pc where
  enter := Pc.enter
  next := Pc.next
  site := Pc.site
  ok _ pc s a := EntryOk cfg pc s a
  grows := Grows

end MorpheusGateway
