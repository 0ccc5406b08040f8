/-
# What each program may do

Few programs may save the settings, change an API key, send a wallet transaction, scan the
wallet, restart the node or ask the provider.  `Program.may` says which, and `powers` is the
contract of a task that uses no other power, and uses these as the source does: the settings
are saved over the revision they were read at, a key is changed from what is stored, a request
that joins the queue finds room in it, a withdrawal is settled as an answer tells, and the scan
goes on from the stored offset.

Every function of the program keeps it wherever it is called with the power it needs
(`Does`).  That is found by instance resolution, but for the functions that use a power.
-/

import MorpheusGateway.Coroutine.Effects
import MorpheusGateway.Protocol.Requests

namespace MorpheusGateway

open Contract

/-! ### Powers -/

/-- What few tasks may do. -/
inductive Power : Type where
  | saveKey
  | savePolicy
  | queue
  | selectBid
  | openSession
  | closeSession
  | withdrawStake
  | scanWallet
  | restartNode
  | askProvider

/-- The power that an event needs. -/
@[reducible] def Event.power : Event → Option Power
  | .key _ => some .saveKey
  | .policy _ => some .savePolicy
  | .wait => some .queue
  | .putOperation .withdraw _ | .putOperation .settle _ => some .withdrawStake
  | .walletScan _ => some .scanWallet
  | _ => none

/-- The events after which a task is at another stage: it has scanned a page, or is done. -/
@[reducible] def Event.stage : Event → Option ℕ
  | .walletScan n => some n
  | .finish h _ => some h
  | _ => none

/-- The power that an await needs. -/
@[reducible] def Site.power : Site → Option Power
  | .openBid .. => some .selectBid
  | .openPost .. => some .openSession
  | .closePost _ => some .closeSession
  | .withdrawPost _ => some .withdrawStake
  | .walletSessions _ => some .scanWallet
  | .helperRestart _ => some .restartNode
  | .dispatch .. => some .askProvider
  | _ => none

/-- The record that is sent in an opening POST. -/
def Site.sends : Site → Option Row
  | .openPost row _ _ => some row
  | _ => none

/-- The selected bid is read. -/
def Site.selects : Site → Bool
  | .openBid .. => true
  | _ => false

/-- The bid that an answer shows. -/
def Site.offers : Site → Answer → Option (Preflight × String × Answer)
  | .openBid l bid, x => some (l, bid, x)
  | _, _ => none

/-- Which programs have a power. -/
def Program.may : Program → Power → Prop
  | .chat _, .saveKey | .editKey .., .saveKey | .revokeKey _, .saveKey | .createKey .., .saveKey
  | .putPolicy _, .savePolicy | .close .., .savePolicy
  | .chat _, .queue | .prewarm .., .queue
  | .task _ (.opener ..), .selectBid | .task _ (.opener ..), .openSession
  | .close .., .closeSession | .task _ (.scheduledClose _), .closeSession
  | .task _ .treasury, .withdrawStake | .task _ .sweep, .withdrawStake
  | .task _ .sweep, .scanWallet
  | .task _ (.restart ..), .restartNode
  | .chat _, .askProvider => True
  | _, _ => False

/-! ### The contract -/

/-- A task: its program, where it is suspended, whether it has made its key, the answer that it
goes on from, and whether it has left its result.  Of an opener also the records that it has sent
in opening POSTs, newest first, and since the last of them the ranking that it chose from, the
bid that it has read, and the models and providers that it has cooled down. -/
structure Agent where
  program : Program
  site : Option Site := none
  made : Bool := false
  woken : Option (Site × Answer) := none
  done : Bool := false
  ranking : Option (Site × Answer) := none
  offer : Option (Preflight × String × Answer) := none
  sent : List Row := []
  cooled : List (String × String) := []

namespace Agent

def next (a : Agent) : LogEntry → Agent
  | .park i => { a with
      site := some i, woken := none
      ranking := if i.sends.isSome then none else if i.selects then a.woken else a.ranking
      offer := if i.sends.isSome then none else a.offer
      sent := i.sends.toList ++ a.sent
      cooled := if i.sends.isSome then [] else a.cooled }
  | .wake i x => { a with
      site := none, woken := some (i, x), offer := (i.offers x).or a.offer }
  | .emit (.key _) => { a with made := true }
  | .emit (.cooldown model provider _) => { a with cooled := (model, provider) :: a.cooled }
  | .emit (.walletScan _) => { a with woken := none }
  | .emit (.finish ..) => { a with done := true }
  | _ => a

/-- A task keeps its program. -/
@[simp] theorem next_program (a : Agent) (x : LogEntry) : (a.next x).program = a.program := by
  cases x with
  | emit e =>
    cases e with
    | key | walletScan | finish => rfl
    | _ => rfl
  | _ => rfl

/-- Only its result ends a task. -/
theorem next_done (a : Agent) {x : LogEntry} (hx : ∀ h r, x ≠ .emit (.finish h r)) :
    (a.next x).done = a.done := by
  cases x with
  | emit e =>
    cases e with
    | finish h r => exact absurd rfl (hx h r)
    | key | walletScan => rfl
    | _ => rfl
  | _ => rfl

end Agent

/-- The key `k` is a change of the one stored under its token, and enabled only if that is. -/
def Amends (s : World) (k : ApiKey) : Prop :=
  ∃ old, s.store.keys.get k.token = some old ∧ old.id = k.id ∧ (k.enabled = true → old.enabled = true)

/-- The receipts say this of the withdrawal, now that the last of them is answered. -/
def Receipted (id : ℕ) (i : Site) (x : Answer) (v : Sessions.TransactionState) :
    Prop :=
  ∃ op rest seen tx all, i = .receipt (.withdrawal op rest) seen tx ∧ op.id = id ∧
    receiptsAfter seen tx x = some all ∧ Sessions.verdict (all.map Prod.snd) = .ok v ∧
    all.map Prod.fst = (Judged.withdrawal op rest).hashes

/-- The answer settles the withdrawal in this state: its POST returned a transaction or was
refused, or the journal or the receipts say what came of it. -/
def Settles (id : ℕ) (i : Site) (x : Answer) : OpState → Prop
  | .succeeded =>
    (∃ op result, i = .withdrawPost op ∧ op.id = id ∧ request (.withdraw id) x = .ok result ∧
      isHash (result.getD "tx" (.str "")).toStr = true) ∨
    (∃ op rest progress, i = .withdrawalJournal op rest ∧ op.id = id ∧
      helperRequest x = .ok progress ∧ (progress.get "completed").truth = true ∧
      Sessions.isStatus200 progress = true) ∨
    Receipted id i x .succeeded
  | .failed =>
    (∃ op, i = .withdrawPost op ∧ op.id = id ∧
      labelOf (request (.withdraw id) x) = some .notSubmitted) ∨
    (∃ op rest, i = .withdrawalJournal op rest ∧ op.id = id ∧ answersUnsent x) ∨
    Receipted id i x .failed
  | _ => False

/-- A withdrawal is stored as unresolved, or as the answer that the task goes on from settles it. -/
def Attested (a : Agent) (op : Operation) : Prop :=
  op.unresolved = true ∨ ∃ i x, a.woken = some (i, x) ∧ Settles op.id i x op.state

/-- How a task uses its powers over the store. -/
def PowerOk (a : Agent) (s : World) : Event → Prop
  | .key k => Amends s k ∨ a.made = false ∧ ∃ key idem, a.program = .createKey key idem ∧
      k = { key with enabled := true, lastUsed := none }
  | .policy p => (∃ q, a.program = .putPolicy q ∧ q.revision = s.store.policy.revision ∧
      p = q.bump) ∨ ∃ id m, a.program = .close id true ∧ p = (s.store.policy.stopMaintaining m).bump
  | .wait => s.memory.waiting < 64
  | .putOperation .withdraw op | .putOperation .settle op => Attested a op
  | .walletScan n => a.done = false ∧ ∃ wallet offset x batch,
      a.woken = some (.walletSessions offset, x) ∧
      readWalletSessions wallet offset x = .ok batch ∧
      n = if batch.length = 100 then offset + batch.length else 0
  | _ => True

/-- The entry of a ranking is permitted, not cooling down and within the price limit. -/
def Selectable (s : World) (modelId : String) (entry : Json) : Prop :=
  s.store.policy.providers.permits ((entry.get "Bid").lowerField "Provider") = true ∧
    (s.store.cooldowns (modelId ++ (entry.get "Bid").lowerField "Provider")).any (s.now < ·) = false ∧
    ∃ price, int ((entry.get "Bid").getD "PricePerSecond" (.num 0)) = .ok price ∧ 0 < price ∧
      price ≤ decimal s.store.policy.budget.maxPricePerSecondWei

/-- The bid is the first of the ranking that is eligible. -/
def Best (s : World) (modelId : String) (rated : List Json) (bidId : String) : Prop :=
  ∃ before entry after, rated = before ++ entry :: after ∧ (∀ e ∈ before, ¬Selectable s modelId e) ∧
    Selectable s modelId entry ∧ ((entry.get "Bid").get "Id").toStr = bidId

/-- The record is of the bid that was read last: one of the requested model that is not deleted,
of the provider that the ranking had it from, whom the stored settings permit. -/
def Offered (a : Agent) (s : World) (row : Row) : Prop :=
  ∃ l x y rated entry bid, a.ranking = some (.openBids l, x) ∧ readBids l.model.id x = .ok rated ∧
    entry ∈ rated ∧ ((entry.get "Bid").get "Id").toStr = row.bid ∧
    (entry.get "Bid").lowerField "Provider" = row.provider ∧
    a.offer = some (l, row.bid, y) ∧ readBid row.bid y = .ok bid ∧
    bid.lowerField "ModelAgentId" = row.model ∧ bid.lowerField "Provider" = row.provider ∧
    int (bid.getD "DeletedAt" (.num 1)) = .ok 0 ∧ l.model.id = row.model ∧
    l.policy.revision = s.store.policy.revision ∧
    s.store.policy.providers.permits row.provider = true ∧ s.store.policy.paused = false ∧
    s.memory.maintenance = false

/-- Where a task awaits.  The scan goes on from the stored offset; the bid that is read is the
best of the ranking; and an opener sends at most three POSTs, each of a bid that it was offered,
the next one after cooling down the provider of the last. -/
def SiteOk (a : Agent) (s : World) : Site → Prop
  | .walletSessions offset => a.done = false ∧ offset = s.store.walletScan
  | .openBid l bidId => ∃ x rated, a.woken = some (.openBids l, x) ∧
      readBids l.model.id x = .ok rated ∧ Best s l.model.id rated bidId
  | .openPost row _ _ => a.sent.length < 3 ∧
      (∀ r ∈ a.sent.head?, (r.model, r.provider) ∈ a.cooled) ∧ Offered a s row
  | _ => True

/-- What is in order for a task. -/
def AgentOk (a : Agent) (s : World) : LogEntry → Prop
  | .emit e => (∀ k, e.power = some k → a.program.may k) ∧ PowerOk a s e
  | .park i => (∀ k, i.power = some k → a.program.may k) ∧
      (∀ key idem, a.program ≠ .createKey key idem) ∧ SiteOk a s i
  | _ => True

/-- The contract of the powers. -/
def powers : Contract World Event StoreCall Site Answer Program Agent where
  enter p := { program := p }
  next := Agent.next
  site := Agent.site
  ok _ a s x := AgentOk a s x
  grows _ _ := True

/-! ### The functions that use no power by themselves -/

/-- The value is `none`. -/
class IsNone {α : Type} (o : Option α) : Prop where
  none : o = none

instance {α : Type} : IsNone (none : Option α) := ⟨rfl⟩

/-- `R` holds of a task whatever it does between two awaits, but for another stage. -/
class Keeping (R : Agent → Prop) : Prop where
  emit {a} (e : Event) (he : e.stage = none) (h : R a) : R (a.next (.emit e))

/-- `R` holds of a task after its end too. -/
class Lasting (R : Agent → Prop) : Prop where
  finish {a} (handle : ℕ) (r : Except Exc Unit) (h : R a) : R (a.next (.emit (.finish handle r)))

/-- `R` are tasks that have the power. -/
class Grants (R : Agent → Prop) (k : Power) : Prop where
  may {a} (h : R a) : a.program.may k
  park {a} (i : Site) (hi : i.power = some k) (h : R a) : R (a.next (.park i))
  wake {a} (i : Site) (x : Answer) (hi : i.power = some k) (h : R a) : R (a.next (.wake i x))

/-- `R` are tasks that await, as far as that needs no power. -/
class Awaits (R : Agent → Prop) : Prop where
  ne {a} (h : R a) (key : ApiKey) (idem : Option String) : a.program ≠ .createKey key idem
  park {a} (i : Site) (hi : i.power = none) (h : R a) : R (a.next (.park i))
  wake {a} (i : Site) (x : Answer) (hi : i.power = none) (h : R a) : R (a.next (.wake i x))

/-- `R` are tasks that are not done, whatever they have scanned. -/
class Undone (R : Agent → Prop) : Prop where
  done {a} (h : R a) : a.done = false
  scan {a} (n : ℕ) (h : R a) : R (a.next (.emit (.walletScan n)))

variable {cfg : Config} {R : Agent → Prop} {ε α : Type}

/-- The coroutine is in order in every task of `R`. -/
abbrev Does (cfg : Config) (R : Agent → Prop) (c : OpE ε α) : Prop :=
  powers.Keeps (gateway cfg) R c

instance (q : StoreCall) (b : Bool) : powers.Stays R (.toss q b) := ⟨fun h => h⟩

instance [hR : Keeping R] (e : Event) [he : IsNone e.stage] : powers.Stays R (.emit e) :=
  ⟨hR.emit e he.none⟩

instance [hR : Lasting R] (handle : ℕ) (r : Except Exc Unit) :
    powers.Stays R (.emit (.finish handle r)) := ⟨hR.finish handle r⟩

instance [hR : Awaits R] (i : Site) [hi : IsNone i.power] : powers.Stays R (.park i) :=
  ⟨hR.park i hi.none⟩

instance [hR : Awaits R] (i : Site) [hi : IsNone i.power] (x : Answer) :
    powers.Stays R (.wake i x) := ⟨hR.wake i x hi.none⟩

instance (e : Event) [he : IsNone e.power] : powers.Licensed R (.emit e) where
  ok t a s _ := by
    have hp : e.power = none := he.none
    refine ⟨fun k hk => (by rw [hp] at hk; cases hk), ?_⟩
    cases e with
    | key | policy | wait | walletScan => cases hp
    | putOperation w op =>
      cases w with
      | withdraw | settle => cases hp
      | _ => trivial
    | _ => trivial

instance (i : Site) [hi : IsNone i.power] [hR : Awaits R] : powers.Licensed R (.park i) where
  ok t a s h := by
    have hp : i.power = none := hi.none
    refine ⟨fun _ hk => (by rw [hp] at hk; cases hk), hR.ne h, ?_⟩
    cases i with
    | walletSessions | openBid | openPost => cases hp
    | _ => trivial

/-! ### The shared parts -/

open Coro Sessions App

set_option synthInstance.maxSize 4000

variable [Keeping R]

section Parts

instance (f : World → α) (q : StoreCall) : Does cfg R (fetch f q) := by
  unfold fetch
  infer_instance

instance (e : Event) (q : StoreCall) [IsNone e.power] [IsNone e.stage] : Does cfg R (store e q) := by
  unfold store
  infer_instance

instance (q : StoreCall) : Does cfg R (storeOther q) := by
  unfold storeOther
  infer_instance

instance : Does cfg R event := by
  unfold event
  infer_instance

instance (q : StoreCall) : Does cfg R (policy q) := by
  unfold policy
  infer_instance

instance (id : RowId) (q : StoreCall) : Does cfg R (getRow id q) := by
  unfold getRow
  infer_instance

instance : Does cfg R sessions := by
  unfold sessions
  infer_instance

instance (w : Writer) (row : Row) (q : StoreCall) : Does cfg R (putRow w row q) := by
  unfold putRow
  infer_instance

instance : Does cfg R uuid := by
  unfold uuid
  infer_instance

instance : Does cfg R now := by
  unfold now
  infer_instance

instance (f : Memory → α) : Does cfg R (memory f) := by
  unfold memory
  infer_instance

instance [Awaits R] (c : Op α) [hc : Does cfg R c] : Does cfg R (withLock c) := by
  unfold withLock
  dsimp only
  refine .bind inferInstance fun m => ?_
  split
  · refine .bind inferInstance fun r => ?_
    split
    all_goals infer_instance
  · infer_instance

instance (w : Work) : Does cfg R (spawn w) := by
  unfold spawn
  infer_instance

instance (id : String) : Does cfg R (Sessions.model id) := by
  unfold Sessions.model
  refine .bind inferInstance fun p => ?_
  split
  all_goals infer_instance

instance [Awaits R] (who : Asker) : Does cfg R (verifyIdentity cfg who) := by
  unfold verifyIdentity
  dsimp only
  infer_instance

instance (w : Writer) (row : Row) (e : Exc) : Does cfg R (markError w row e) := by
  unfold markError
  infer_instance

instance (m p : String) : Does cfg R (cooldown m p) := by
  unfold cooldown
  infer_instance

instance (modelId : String) (p : Policy) (bids : List Json) : Does cfg R (rank modelId p bids) := by
  induction bids with
  | nil =>
    unfold rank
    infer_instance
  | cons entry rest ih =>
    unfold rank
    infer_instance

instance [Awaits R] (l : Preflight) : Does cfg R (candidates l) := by
  unfold candidates
  infer_instance

instance (row : Row) : Does cfg R (scheduleClose row) := by
  unfold scheduleClose
  infer_instance

instance (p : Policy) (kept rows : List Row) : Does cfg R (rebalanceLoop p kept rows) := by
  induction rows generalizing kept with
  | nil =>
    unfold rebalanceLoop
    infer_instance
  | cons row rest ih =>
    unfold rebalanceLoop
    dsimp only
    infer_instance

instance : Does cfg R rebalance := by
  unfold rebalance
  infer_instance

instance (row : Row) (q : StoreCall) : Does cfg R (_coolProvider row q) := by
  unfold _coolProvider
  infer_instance

instance (excluding : Option RowId) : Does cfg R (requireClearWallet excluding) := by
  unfold requireClearWallet
  dsimp only
  infer_instance

instance (row : Row) (truth : Json) : Does cfg R (_validateTruth row truth) := by
  unfold _validateTruth
  infer_instance

instance (truth : Json) (key : String) : Does cfg R (truthInt truth key) := by
  unfold truthInt
  infer_instance

end Parts

/-! ### Openings -/

section Openings

variable [Awaits R]

instance (modelId : String) (offsets : List ℕ) : Does cfg R (findModel modelId offsets) := by
  induction offsets with
  | nil =>
    unfold findModel
    infer_instance
  | cons offset rest ih =>
    unfold findModel
    infer_instance

instance (l : Preflight) (balances : Balances) (bid : Json) :
    Does cfg R (Sessions.estimate l balances bid) := by
  unfold Sessions.estimate
  infer_instance

omit [Keeping R] in
/-- An await that needs a power. -/
theorem Does.use {i : Site} {k : Power} (hi : i.power = some k) [hk : Grants R k]
    (hc : ∀ a s, SiteOk a s i) : Does cfg R (suspend i : OpE ε Answer) where
  wp t a s h := by
    refine ⟨⟨fun k' hk' => ?_, Awaits.ne h, hc a s⟩, fun _ x _ _ => hk.wake i x hi (hk.park i hi h)⟩
    obtain rfl := Option.some.inj (hi.symm.trans hk')
    exact hk.may h

omit [Awaits R] in
instance (modelId : String) : Does cfg R (openingError modelId) := by
  unfold openingError
  refine .bind inferInstance fun f => ?_
  split
  all_goals infer_instance

omit [Awaits R] in
instance (modelId : String) : Does cfg R (startOpen modelId) := by
  unfold startOpen
  infer_instance

omit [Awaits R] in
instance (opener : ℕ) (modelId : String) : Does cfg R (Sessions.openerDone opener modelId) := by
  unfold Sessions.openerDone
  infer_instance

omit [Awaits R] in
instance (modelId : String) (rows : List Row) : Does cfg R (anyHot cfg modelId rows) := by
  induction rows with
  | nil =>
    unfold anyHot
    infer_instance
  | cons row rest ih =>
    unfold anyHot
    dsimp only
    infer_instance

omit [Awaits R] in
instance (modelId : String) (error : GatewayError) : Does cfg R (canWaitForHot cfg modelId error) := by
  unfold canWaitForHot
  infer_instance

end Openings

/-! ### Closes and recovery -/

section Closes

instance (row : Row) : Does cfg R (release row) := by
  unfold release
  refine .bind inferInstance fun _ => .bind inferInstance fun current => ?_
  split
  all_goals infer_instance

instance (row : Row) (reason : String) (q : StoreCall) : Does cfg R (invalidate row reason q) := by
  unfold invalidate
  refine .bind inferInstance fun current => ?_
  split
  all_goals infer_instance

instance (w : Writer) (row : Row) (truth : Json) : Does cfg R (recordClosed w row truth) := by
  unfold recordClosed
  infer_instance

variable [Awaits R]

instance (row : Row) (chainId : String) : Does cfg R (readClosed row chainId) := by
  unfold readClosed
  infer_instance

instance [Grants R .closeSession] (row : Row) (chainId : String) (operation : ℕ) :
    Does cfg R (Sessions.closePost row chainId operation) := by
  unfold Sessions.closePost
  exact .bind (Does.use rfl fun _ _ => trivial) fun a => inferInstance

omit [Awaits R] in
instance (x : Row × Exc) : Does cfg R (closePostFailed x) := by
  unfold closePostFailed
  split
  all_goals infer_instance

instance [Grants R .closeSession] (row : Row) (chainId : String) :
    Does cfg R (closeVerified row chainId) := by
  unfold closeVerified
  refine .bind inferInstance fun a => .bind inferInstance fun truth => .bind inferInstance fun _ =>
    .bind inferInstance fun closedAt => ?_
  split
  · infer_instance
  · refine .bind inferInstance fun _ => .bind inferInstance fun operation =>
      .bind inferInstance fun _ => .bind inferInstance fun r => ?_
    split
    all_goals infer_instance

omit [Awaits R] in
instance (x : Row × Exc) : Does cfg R (Sessions.closeFailed x) := by
  unfold Sessions.closeFailed
  split
  all_goals infer_instance

instance [Grants R .closeSession] (row : Row) : Does cfg R (_close row) := by
  unfold _close
  split
  · infer_instance
  · split
    · infer_instance
    · refine .bind inferInstance fun active => ?_
      split
      · infer_instance
      · split
        all_goals infer_instance

instance [Grants R .closeSession] (id : RowId) : Does cfg R (closeLocked cfg id) := by
  unfold closeLocked
  refine .bind inferInstance fun paused => ?_
  split
  · infer_instance
  · refine .bind inferInstance fun r => ?_
    split
    · refine .bind inferInstance fun row => ?_
      split
      all_goals infer_instance
    · infer_instance
    · refine .bind inferInstance fun row => ?_
      split
      all_goals infer_instance

instance [Grants R .closeSession] (id : RowId) : Does cfg R (close cfg id) := by
  unfold close
  refine .bind inferInstance fun row => ?_
  split
  · infer_instance
  · dsimp only
    simp only [Bool.false_eq_true, if_false]
    infer_instance

instance (row : Row) (chainId : String) : Does cfg R (bindVerified cfg row chainId) := by
  unfold bindVerified
  dsimp only
  infer_instance

instance (id : RowId) (chainId : String) : Does cfg R (Sessions.bind cfg id chainId) := by
  unfold Sessions.bind
  split
  · infer_instance
  · refine .bind inferInstance fun _ => .bind inferInstance fun row => ?_
    split
    · infer_instance
    · dsimp only
      infer_instance

end Closes

/-! ### Reconciliation -/

section Reconciliation

variable [Awaits R]

instance (j : Judged) (seen : List (String × Option Json)) (tx chain : String) :
    Does cfg R (receipt cfg j seen tx chain) := by
  unfold receipt
  dsimp only
  infer_instance

instance (j : Judged) (seen : List (String × Option Json)) (txs : List Json) :
    Does cfg R (judge cfg j seen txs) := by
  induction txs generalizing seen with
  | nil =>
    unfold judge
    infer_instance
  | cons tx rest ih =>
    unfold judge
    dsimp only
    split
    · infer_instance
    · refine .bind inferInstance fun identity => ?_
      split
      all_goals infer_instance

instance (j : Judged) (transactions : Json) : Does cfg R (transactionState cfg j transactions) := by
  unfold transactionState
  infer_instance

omit [Keeping R] in
/-- Reading the journal is an await that needs no power. -/
theorem Does.journal {site : Site} (h : site.power = none) : Does cfg R (journal site) := by
  have : IsNone site.power := ⟨h⟩
  unfold Sessions.journal
  refine .bind inferInstance fun a => ?_
  split
  all_goals infer_instance

instance (rows : List Row) : Does cfg R (journalPass cfg rows) := by
  induction rows with
  | nil =>
    unfold journalPass
    infer_instance
  | cons row rest ih =>
    have : Does cfg R (journal (.rowJournal row)) := .journal rfl
    unfold journalPass
    dsimp only
    split
    · split
      all_goals
        refine .bind inferInstance fun progress => .bind inferInstance fun current => ?_
        split
        · split
          all_goals infer_instance
        · infer_instance
    · infer_instance

instance (snapshot row : Row) (truth : Json) : Does cfg R (storeTruth snapshot row truth) := by
  unfold storeTruth
  infer_instance

instance (row : Row) : Does cfg R (readTruth cfg row) := by
  unfold readTruth
  dsimp only
  infer_instance

instance (rows : List Row) : Does cfg R (truthPass cfg rows) := by
  induction rows with
  | nil =>
    unfold truthPass
    infer_instance
  | cons row rest ih =>
    unfold truthPass
    dsimp only
    refine .bind inferInstance fun time => ?_
    split
    · refine .bind inferInstance fun r => ?_
      split
      all_goals infer_instance
    · infer_instance

instance (row : Row) (rest : List Row) : Does cfg R (judgeOpening cfg row rest) := by
  unfold judgeOpening
  infer_instance

instance (rows : List Row) : Does cfg R (receiptPass cfg rows) := by
  induction rows with
  | nil =>
    unfold receiptPass
    infer_instance
  | cons row rest ih =>
    unfold receiptPass
    dsimp only
    split
    · refine .bind inferInstance fun r => ?_
      split
      all_goals infer_instance
    · infer_instance

instance : Does cfg R (reconcile cfg) := by
  unfold reconcile
  infer_instance

end Reconciliation

/-! ### The store and the answers -/

section Answers

variable {R : Agent → Prop} {t : ℕ} {a : Agent} {s : World}

/-- A read of the store. -/
@[simp] theorem powers_fetch (f : World → α) (q : StoreCall) {Q : α → Agent → World → Prop}
    {E : Exc → Agent → World → Prop} :
    powers.wp (gateway cfg) t (fetch f q) Q E a s ↔ E .storage a s ∧ Q (f s) a s := by
  have toss : ∀ b, powers.next a (.toss q b) = a := fun _ => rfl
  simp only [fetch, wp_bind', wp_fails, toss, Bool.forall_bool, wp_ite, wp_raise, wp_get, wp_pure,
    Bool.false_eq_true, not_false_eq_true, not_true_eq_false, forall_const, false_implies, true_and,
    and_true]
  exact and_comm

/-- A write of the store has to be in the power of the task. -/
@[simp] theorem powers_store (e : Event) (q : StoreCall) {Q : Unit → Agent → World → Prop}
    {E : Exc → Agent → World → Prop} :
    powers.wp (gateway cfg) t (store e q) Q E a s ↔
      E .storage a s ∧ AgentOk a s (.emit e) ∧ Q () (a.next (.emit e)) (s.apply t e) := by
  have toss : ∀ b, powers.next a (.toss q b) = a := fun _ => rfl
  simp only [store, wp_bind', wp_fails, toss, Bool.forall_bool, wp_ite, wp_raise, wp_perform,
    Bool.false_eq_true, not_false_eq_true, not_true_eq_false, forall_const, false_implies, true_and,
    and_true]
  exact and_comm

/-- An event that needs no power is in order. -/
theorem agentOk_emit {e : Event} (he : e.power = none) : AgentOk a s (.emit e) := by
  have : IsNone e.power := ⟨he⟩
  have : powers.Licensed (fun _ => True) (.emit e) := inferInstance
  exact this.ok 0 s trivial

/-- Session records are in every power. -/
@[simp] theorem powers_putRow (w : Writer) (row : Row) (q : StoreCall) {Q : Unit → Agent → World → Prop}
    {E : Exc → Agent → World → Prop} :
    powers.wp (gateway cfg) t (putRow w row q) Q E a s ↔
      E .storage a s ∧ Q () a (s.apply t (.put w row)) := by
  rw [putRow, powers_store]
  exact and_congr_right fun _ => and_iff_right (agentOk_emit rfl)

/-- So are numbers. -/
@[simp] theorem powers_uuid {Q : ℕ → Agent → World → Prop} {E : Exc → Agent → World → Prop} :
    powers.wp (gateway cfg) t uuid Q E a s ↔ Q s.uuids a (s.apply t (.uuid s.uuids)) :=
  and_iff_right (agentOk_emit rfl)

/-- So are diagnostics. -/
@[simp] theorem powers_event {Q : Unit → Agent → World → Prop} {E : Exc → Agent → World → Prop} :
    powers.wp (gateway cfg) t event Q E a s ↔ Q () a s ∧ Q () a (s.apply t (.storeError true)) := by
  have ok : AgentOk a s (.emit (.storeError true)) := agentOk_emit rfl
  constructor
  · exact fun h => ⟨h false, (h true).2⟩
  · rintro ⟨h, h'⟩ (_ | _)
    · exact h
    · exact ⟨ok, h'⟩

/-- The task goes on from this answer, and has not awaited anything since. -/
structure Reads (R : Agent → Prop) (i : Site) (x : Answer) (a : Agent) : Prop where
  task : R a
  woken : a.woken = some (i, x)

/-- No event but the new offset forgets the answer. -/
theorem Agent.next_woken (a : Agent) {e : Event} (he : ∀ n, e ≠ .walletScan n) :
    (a.next (.emit e)).woken = a.woken := by
  cases e with
  | walletScan n => exact absurd rfl (he n)
  | key | finish => rfl
  | _ => rfl

instance [Keeping R] (i : Site) (x : Answer) : Keeping (Reads R i x) where
  emit {a} e he h := by
    refine ⟨Keeping.emit e he h.task, (a.next_woken ?_).trans h.woken⟩
    rintro n rfl
    cases he

/-- Going on from an await that needs no power. -/
theorem powers_suspend [hR : Awaits R] {ε : Type} {i : Site} (hi : i.power = none) (h : R a)
    {Q : Answer → Agent → World → Prop} {E : ε → Agent → World → Prop}
    (hQ : ∀ x a s, Reads R i x a → Q x a s) :
    powers.wp (gateway cfg) t (suspend i : OpE ε Answer) Q E a s := by
  refine ⟨⟨fun k hk => (by rw [hi] at hk; cases hk), hR.ne h, ?_⟩,
    fun s' x _ _ => hQ x _ s' ⟨hR.wake i x hi (hR.park i hi h), rfl⟩⟩
  cases i with
  | walletSessions | openBid | openPost => cases hi
  | _ => trivial

end Answers

end MorpheusGateway
