/-
# Every program keeps to its powers

The rest of the functions, those that use a power over the store, and the programs.
`powers_holds` is what the runs of the gateway are judged by.
-/

import MorpheusGateway.Protocol.Offers

namespace MorpheusGateway

open Contract Coro Sessions App

variable {cfg : Config} {R : Agent → Prop} [Keeping R] {ε α : Type}

set_option synthInstance.maxSize 40000

/-! ### The wallet -/

section Wallet

instance (rows : List Row) : Does cfg R (putCandidates rows) := by
  induction rows with
  | nil =>
    unfold putCandidates
    infer_instance
  | cons row rest ih =>
    unfold putCandidates
    infer_instance

instance (sid : String) (truth : Json) : Does cfg R (orphan sid truth) := by
  unfold orphan
  infer_instance

instance (known : List (Option String)) (uncertain : List Row) (truth : Json) :
    Does cfg R (scanSession cfg known uncertain truth) := by
  unfold scanSession
  infer_instance

instance (known : List (Option String)) (uncertain : List Row) (page : List Json) :
    Does cfg R (scan cfg known uncertain page) := by
  induction page generalizing uncertain with
  | nil =>
    unfold scan
    infer_instance
  | cons truth rest ih =>
    unfold scan
    refine .bind inferInstance fun r => ?_
    split
    all_goals infer_instance

variable [Awaits R]

instance (rows : List Row) : Does cfg R (bindCandidates cfg rows) := by
  induction rows with
  | nil =>
    unfold bindCandidates
    infer_instance
  | cons row rest ih =>
    unfold bindCandidates
    dsimp only
    split
    · split
      · refine .bind inferInstance fun r => ?_
        split
        all_goals infer_instance
      · infer_instance
    · infer_instance

omit [Awaits R] in
instance (work : Op Unit) [hw : Does cfg R work] : Does cfg R (component work) := by
  unfold component
  refine .bind inferInstance fun r => ?_
  split
  all_goals infer_instance

end Wallet

/-! ### Maintenance -/

section Maintenance

instance (rows : List Row) : Does cfg R (recoverRows rows) := by
  induction rows with
  | nil =>
    unfold recoverRows
    infer_instance
  | cons row rest ih =>
    unfold recoverRows
    infer_instance

instance (op : Operation) : Does cfg R (recoverOperation op) := by
  unfold recoverOperation
  infer_instance

instance : Does cfg R probeWritable := by
  unfold probeWritable
  infer_instance

instance (p : Policy) (rows : List Row) : Does cfg R (tickRows p rows) := by
  induction rows with
  | nil =>
    unfold tickRows
    infer_instance
  | cons row rest ih =>
    unfold tickRows
    infer_instance

instance (modelId : String) (rows : List Row) : Does cfg R (replaceExpiring cfg modelId rows) := by
  induction rows with
  | nil =>
    unfold replaceExpiring
    infer_instance
  | cons row rest ih =>
    unfold replaceExpiring
    infer_instance

instance (models : List ModelPolicy) : Does cfg R (maintainModels cfg models) := by
  induction models with
  | nil =>
    unfold maintainModels
    infer_instance
  | cons m rest ih =>
    unfold maintainModels
    infer_instance

instance (immediate applyRating : Bool) : Does cfg R (restart cfg immediate applyRating) := by
  unfold restart
  infer_instance

variable [Awaits R]

instance (op : Operation) (rest : List Operation) : Does cfg R (restartCompleted cfg op rest) := by
  unfold restartCompleted
  infer_instance

instance (ops : List Operation) : Does cfg R (recoverOperations cfg ops) := by
  induction ops with
  | nil =>
    unfold recoverOperations
    infer_instance
  | cons op rest ih =>
    have caught : Does cfg R (Coro.tryCatch (restartCompleted cfg op rest) fun
        | .gateway _ => pure false
        | e => raise e : Op Bool) := by
      refine .tryCatch inferInstance fun e => ?_
      split
      all_goals infer_instance
    unfold recoverOperations
    infer_instance

instance : Does cfg R (recover cfg) := by
  unfold recover
  refine .bind inferInstance fun _ => .bind inferInstance fun rows => .bind inferInstance fun _ =>
    .bind inferInstance fun ops => .bind inferInstance fun _ => .tryCatch inferInstance fun e => ?_
  split
  all_goals infer_instance

instance : Does cfg R (tick cfg) := by
  unfold tick
  refine .bind inferInstance fun paused => ?_
  split
  · infer_instance
  · refine .bind inferInstance fun broken => ?_
    dsimp only
    split
    all_goals infer_instance

instance : Does cfg R pause := by
  unfold pause
  refine .bind inferInstance fun a => ?_
  split
  all_goals infer_instance

instance : Does cfg R (runTurn cfg) := by
  unfold runTurn
  refine .bind inferInstance fun r => ?_
  split
  all_goals infer_instance

instance : Does cfg R (run cfg) := by
  unfold run
  infer_instance

instance (immediate : Bool) : Does cfg R (drain immediate) := by
  have lock : Does cfg R (do
      if (← memory Memory.lock).isSome then
        match ← suspend .drainedLock with
        | .done => pure ()
        | .timeout => raise .timeout
        | _ => raise .cancelled
      perform .lock : Op Unit) := by
    refine .bind inferInstance fun m => ?_
    split
    · refine .bind inferInstance fun a => ?_
      split
      all_goals infer_instance
    · infer_instance
  unfold drain
  refine .bind inferInstance fun m => ?_
  split
  · refine .bind inferInstance fun a => ?_
    split
    all_goals infer_instance
  · infer_instance

instance [Grants R .restartNode] (op : Operation) (p : Policy) (applyRating : Bool) :
    Does cfg R (restartNode cfg op p applyRating) := by
  have : Does cfg R (suspend (.helperRestart op) : Op Answer) := .use rfl fun _ _ => trivial
  unfold restartNode
  infer_instance

instance [Grants R .restartNode] (op : Operation) (p : Policy) (immediate applyRating : Bool) :
    Does cfg R (restartBody cfg op p immediate applyRating) := by
  unfold restartBody
  infer_instance

instance [Grants R .restartNode] (op : Operation) (immediate applyRating : Bool) :
    Does cfg R (_restart cfg op immediate applyRating) := by
  unfold _restart
  refine .bind inferInstance fun p => .bind inferInstance fun r => .bind inferInstance fun _ =>
    .bind inferInstance fun _ => .bind inferInstance fun _ => ?_
  split
  all_goals infer_instance

end Maintenance

/-! ### Leases -/

section Leases

instance (x : Row × Exc) : Does cfg R (confirmFailed x) := by
  unfold confirmFailed
  split
  all_goals infer_instance

instance (modelId : String) (opener : ℕ) : Does cfg R (dropFinished modelId opener) := by
  unfold dropFinished
  infer_instance

instance (m : ModelPolicy) (deadline : ℚ) : Does cfg R (chooseOpener cfg m deadline) := by
  unfold chooseOpener
  refine .bind inferInstance fun rows => ?_
  dsimp only
  split
  · split
    · infer_instance
    · refine .bind inferInstance fun opening => .bind inferInstance fun error => ?_
      split
      all_goals infer_instance
  · split
    · infer_instance
    · refine .bind inferInstance fun opening => .bind inferInstance fun error => ?_
      split
      all_goals infer_instance

variable [Awaits R]

instance (m : ModelPolicy) (prewarm : Bool) (row : Row) : Does cfg R (confirm cfg m prewarm row) := by
  unfold confirm
  refine .bind inferInstance fun _ => .bind inferInstance fun a => .bind inferInstance fun truth =>
    .bind inferInstance fun _ => .bind inferInstance fun latest => ?_
  split
  all_goals infer_instance

instance (m : ModelPolicy) (prewarm : Bool) (rows : List Row) :
    Does cfg R (borrow cfg m prewarm rows) := by
  induction rows with
  | nil =>
    unfold borrow
    infer_instance
  | cons row rest ih =>
    unfold borrow
    refine .bind inferInstance fun active => ?_
    split
    · infer_instance
    · refine .bind inferInstance fun _ => .bind inferInstance fun r => ?_
      split
      all_goals infer_instance

instance (modelId : String) (opener : ℕ) : Does cfg R (awaitOpener cfg modelId opener) := by
  unfold awaitOpener
  refine .bind inferInstance fun a => ?_
  split
  all_goals infer_instance

instance (modelId : String) (prewarm : Bool) (deadline : ℚ) (n : ℕ) :
    Does cfg R (acquireLoop cfg modelId prewarm deadline n) := by
  induction n with
  | zero =>
    unfold acquireLoop
    infer_instance
  | succ n ih =>
    unfold acquireLoop
    refine .bind inferInstance fun paused => ?_
    split
    · infer_instance
    · refine .bind inferInstance fun p => ?_
      split
      · infer_instance
      · refine .bind inferInstance fun m => .bind inferInstance fun _ =>
          .bind inferInstance fun rows => .bind inferInstance fun row => ?_
        split
        · infer_instance
        · refine .bind inferInstance fun opener => ?_
          split
          all_goals infer_instance

end Leases

/-! ### Chat requests -/

section Requests

instance (token : String) : Does cfg R (apiKey token) := by
  unfold apiKey
  refine .bind inferInstance fun key => ?_
  split
  all_goals infer_instance

instance (c : Cleanup) : Does cfg R (settle c) := by
  unfold settle
  split
  · split
    all_goals infer_instance
  · split
    all_goals infer_instance

instance (c : Cleanup) (key : Option String) : Does cfg R (reserveAttempt c key) := by
  unfold reserveAttempt
  split
  · infer_instance
  · dsimp only
    split
    · infer_instance
    · refine .bind inferInstance fun attempt => ?_
      split
      all_goals infer_instance

instance (c : Cleanup) (reason : String) : Does cfg R (invalidateFailed c reason) := by
  unfold invalidateFailed
  split
  all_goals infer_instance

variable [Awaits R]

instance : Does cfg R closeUpstream := by
  unfold closeUpstream
  refine .bind inferInstance fun a => ?_
  split
  all_goals infer_instance

instance (c : Cleanup) : Does cfg R (cleanup c) := by
  unfold cleanup
  infer_instance

instance (c : Cleanup) : Does cfg R (shieldedCleanup c) := by
  unfold shieldedCleanup
  refine .bind inferInstance fun handle => .bind inferInstance fun a => ?_
  split
  all_goals infer_instance

instance : Does cfg R readBody := by
  unfold readBody
  refine .bind inferInstance fun a => ?_
  split
  all_goals infer_instance

instance (x : Cleanup × Exc) : Does cfg R (serveFailed x) := by
  unfold serveFailed
  split
  all_goals infer_instance

instance (c : Cleanup) (e : Exc) : Does cfg R (interruptStream c e) := by
  unfold interruptStream
  split
  · dsimp only
    split
    · infer_instance
    · refine .bind inferInstance fun _ => .bind inferInstance fun a => ?_
      split
      all_goals infer_instance
  · dsimp only
    split
    · infer_instance
    · refine .bind inferInstance fun a => ?_
      split
      all_goals infer_instance

instance (c : Cleanup) : Does cfg R (streamBody c) := by
  unfold streamBody
  refine .bind inferInstance fun a => ?_
  split
  all_goals infer_instance

instance (c : Cleanup) : Does cfg R (streamEvents c) := by
  unfold streamEvents
  infer_instance

instance (c : Cleanup) : Does cfg R (respond c) := by
  unfold respond
  refine .bind inferInstance fun a => ?_
  split
  all_goals infer_instance

instance [Grants R .askProvider] (call : ChatCall) (m : ModelPolicy) (row : Row) :
    Does cfg R (dispatch call m row) := by
  unfold dispatch
  refine .bind (Does.use rfl fun _ _ => trivial) fun a => ?_
  split
  all_goals infer_instance

end Requests

/-! ### The functions that use a power over the store -/

/-- Joining the queue: `acquire` counts a request in only when there is room. -/
instance [Awaits R] [hq : Grants R .queue] (modelId : String) (prewarm : Bool) (rounds : ℕ) :
    Does cfg R (acquire cfg modelId prewarm rounds) := by
  have waits : Does cfg R (do
      let p ← policy .queueRead
      let deadline := (← Coro.get).monotonic + p.queueSeconds
      (acquireLoop cfg modelId prewarm deadline rounds).tryFinally (perform .unwait) : Op Row) := by
    infer_instance
  unfold acquire
  refine .bind inferInstance fun p => .bind inferInstance fun paused => ?_
  split
  · infer_instance
  · refine ⟨fun t a s h => ?_⟩
    simp only [wp_bind', memory, wp_get, wp_pure, wp_ite, wp_perform]
    refine ⟨fun _ => h, fun room => ⟨⟨fun k hk => ?_, not_le.1 room⟩, ?_⟩⟩
    · obtain rfl := Option.some.inj hk
      exact hq.may h
    · exact (wp_bind' _).1 (waits.wp t _ h)

section Powers

variable {t : ℕ} {a : Agent} {s : World}

/-- A changed key is the one under its token. -/
theorem Amends.of_get {token : String} {key k : ApiKey} (h : s.store.keys.get token = some key)
    (ht : k.token = key.token) (hid : k.id = key.id) (he : k.enabled = true → key.enabled = true) :
    Amends s k :=
  ⟨key, by rw [ht, Table.key_of_get h, h], hid.symm, he⟩

/-- A key that is found may be stored again with its token and ID, unless it comes back to life.
-/
theorem Amends.of_find {p : ApiKey → Bool} {key k : ApiKey}
    (h : s.store.keys.rows.find? p = some key)
    (ht : k.token = key.token) (hid : k.id = key.id) (he : k.enabled = true → key.enabled = true) :
    Amends s k :=
  .of_get (Table.mem_rows.1 (List.mem_of_find?_eq_some h)) ht hid he

/-- The key that `completion` marks as used is the one that it has just read. -/
instance [hk : Grants R .saveKey] (call : ChatCall) (m : ModelPolicy) (row : Row) :
    Does cfg R (recheck call m row) := by
  refine ⟨fun t a s h => ?_⟩
  unfold recheck
  refine (wp_bind' _).2 ((powers_fetch _ _).2 ⟨h, ?_⟩)
  split
  · exact h
  · rename_i key hkey
    have used : ∀ time, AgentOk a s (.emit (.key { key with lastUsed := some time })) := by
      refine fun time => ⟨fun k' hk' => ?_, .inl (.of_get hkey rfl rfl id)⟩
      obtain rfl := Option.some.inj hk'
      exact hk.may h
    simp only [wp_bind', wp_ite, wp_raise, policy, powers_fetch, memory, wp_get, wp_pure,
      now, powers_store]
    exact ⟨fun _ => h, fun _ => ⟨h, fun _ => h, fun _ => ⟨h, used _, Keeping.emit _ rfl h⟩⟩⟩

/-- The scan stores the offset after the page that it has read at the stored one. -/
instance [Awaits R] [hs : Grants R .scanWallet] [hd : Undone R] : Does cfg R (sweepWallet cfg) := by
  unfold sweepWallet
  refine .bind inferInstance fun identity => ⟨fun t a s h => ?_⟩
  refine (wp_bind' _).2 ((powers_fetch _ _).2 ⟨h, ?_⟩)
  have may : ∀ {a k}, R a → some Power.scanWallet = some k → a.program.may k := by
    rintro a k h ⟨⟩
    exact hs.may h
  refine (wp_bind' _).2 ⟨⟨fun k => may h, Awaits.ne h, hd.done h, rfl⟩, fun s' x _ _ => ?_⟩
  have reads : Reads R (.walletSessions s.store.walletScan) x
      ((a.next (.park (.walletSessions s.store.walletScan))).next
        (.wake (.walletSessions s.store.walletScan) x)) := ⟨hs.wake _ x rfl (hs.park _ rfl h), rfl⟩
  refine (wp_bind' _).2 ((wp_ofExcept _).2 ⟨fun batch hb => ?_, fun _ _ => reads.task⟩)
  refine (wp_bind' _).2 (Keeps.then reads (fun known a s reads => ?_) fun _ _ _ h => h.task)
  refine (wp_bind' _).2 (Keeps.then reads (fun uncertain a s reads => ?_) fun _ _ _ h => h.task)
  refine (wp_bind' _).2 (Keeps.then reads (fun _ a s reads => ?_) fun _ _ _ h => h.task)
  refine (wp_bind' _).2 ((powers_store _ _).2 ⟨reads.task, ⟨fun k => may reads.task, ?_⟩, ?_⟩)
  · exact ⟨hd.done reads.task, _, _, x, batch, reads.woken, hb, rfl⟩
  · exact Keeps.wp (R := R) t _ (hd.scan _ reads.task)

/-! ### Withdrawals -/

section Withdrawals

variable [hR : Awaits R]

omit [Keeping R] in
/-- The journal is what the answer says. -/
theorem powers_journal {i : Site} (hi : i.power = none) (h : R a)
    {Q : Option Json → Agent → World → Prop} {E : Exc → Agent → World → Prop}
    (hE : ∀ e a s, R a → E e a s) (hnone : ∀ a s, R a → Q none a s)
    (hsome : ∀ x progress a s, Reads R i x a → helperRequest x = .ok progress →
      Q (some progress) a s) :
    powers.wp (gateway cfg) t (journal i) Q E a s := by
  unfold journal
  refine (wp_bind' _).2 (powers_suspend hi h fun x a s reads => ?_)
  split
  · exact hsome x _ a s reads ‹_›
  · exact hnone a s reads.task
  · exact hE _ a s reads.task

/-- The receipts `seen` are the answers so far, and `txs` is still to judge. -/
structure Judges (R : Agent → Prop) (j : Judged) (seen : List (String × Option Json))
    (txs : List Json) (a : Agent) : Prop where
  task : R a
  hashes : j.hashes = seen.map Prod.fst ++ txs.map fun tx => (transactionHash tx).toStr
  seen : seen = [] ∧ txs ≠ [] ∨ ∃ seen' tx x, a.woken = some (.receipt j seen' tx, x) ∧
    receiptsAfter seen' tx x = some seen

/-- A verdict on the transactions is that of all their receipts. -/
def Ruled (a : Agent) (j : Judged) (v : TransactionState) : Prop :=
  ∃ seen tx x all, a.woken = some (.receipt j seen tx, x) ∧ receiptsAfter seen tx x = some all ∧
    verdict (all.map Prod.snd) = .ok v ∧ all.map Prod.fst = j.hashes

omit [Keeping R] in

/-- The loop over the transactions, by induction on those that are left. -/
theorem powers_judge {j : Judged} (txs : List Json) {Q : TransactionState → Agent → World → Prop}
    {E : Exc → Agent → World → Prop} (hE : ∀ e a s, R a → E e a s)
    (hQ : ∀ v a s, R a → (v = .unknown ∨ Ruled a j v) → Q v a s) :
    ∀ {a s seen}, Judges R j seen txs a → powers.wp (gateway cfg) t (judge cfg j seen txs) Q E a s := by
  induction txs with
  | nil =>
    intro a s seen h
    rcases h.seen with ⟨-, hne⟩ | ⟨seen', tx, x, woken, hr⟩
    · exact absurd rfl hne
    · refine (wp_ofExcept _).2 ⟨fun v hv => hQ v a s h.task (.inr ?_), fun e _ => hE e a s h.task⟩
      exact ⟨seen', tx, x, seen, woken, hr, hv, by simp [h.hashes]⟩
  | cons tx rest ih =>
    intro a s seen h
    unfold judge
    simp only [wp_ite, wp_pure, wp_bind', memory, wp_get]
    refine ⟨fun _ => hQ _ a s h.task (.inl rfl), fun _ => ?_⟩
    split
    · exact hE _ a s h.task
    · unfold receipt
      simp only [wp_bind', wp_ite, wp_raise, raise_seq]
      refine ⟨fun _ => hE _ a s h.task, fun _ => ?_⟩
      refine powers_suspend rfl h.task fun x a s reads => ?_
      refine (wp_bind' _).2 ((wp_ofExcept _).2 ⟨fun _ _ => ?_, fun e _ => hE e a s reads.task⟩)
      refine (wp_bind' _).2 <| powers_suspend rfl reads.task fun x a s reads => ?_
      refine (wp_ofExcept _).2 ⟨fun r hr => ih ⟨reads.task, ?_, .inr ⟨_, _, x, reads.woken, ?_⟩⟩,
        fun e _ => hE e a s reads.task⟩
      · rw [h.hashes, List.map_append, List.map_cons, List.append_assoc]
        rfl
      · rw [receiptsAfter, hr]

omit [Keeping R] in

/-- The judgement of a transaction is ruled by its receipts. -/
theorem powers_transactionState {j : Judged} {transactions : Json}
    (hj : ∀ xs, iterate transactions = .ok xs → j.transactions = .ok xs) (h : R a)
    {Q : TransactionState → Agent → World → Prop} {E : Exc → Agent → World → Prop}
    (hE : ∀ e a s, R a → E e a s) (hQ : ∀ v a s, R a → (v = .unknown ∨ Ruled a j v) → Q v a s) :
    powers.wp (gateway cfg) t (transactionState cfg j transactions) Q E a s := by
  simp only [transactionState, wp_ite, wp_pure, wp_bind', wp_ofExcept]
  refine ⟨fun _ => hQ _ a s h (.inl rfl), fun ht => ⟨fun xs hxs => ?_, fun e _ => hE e a s h⟩⟩
  refine powers_judge xs hE hQ ⟨h, ?_, .inl ⟨rfl, iterate_ne_nil (not_not.1 ht) hxs⟩⟩
  simp [Judged.hashes, hj xs hxs]

variable [hw : Grants R .withdrawStake]

omit [Keeping R] hR in
/-- The power to store the outcome of a withdrawal. -/
theorem agentOk_withdrawal {w : OperationWriter} {op : Operation} (h : R a) (told : Attested a op)
    (hw' : w = .withdraw ∨ w = .settle) : AgentOk a s (.emit (.putOperation w op)) := by
  rcases hw' with rfl | rfl
  · refine ⟨fun k hk => ?_, told⟩
    obtain rfl := Option.some.inj hk
    exact hw.may h
  · refine ⟨fun k hk => ?_, told⟩
    obtain rfl := Option.some.inj hk
    exact hw.may h

/-- An unresolved withdrawal is settled by its journal, or still unresolved. -/
theorem powers_journalWithdrawal {op : Operation} {rest : List Operation} (h : R a)
    (hop : op.unresolved = true) {Q : Operation × Bool → Agent → World → Prop}
    {E : Exc → Agent → World → Prop} (hE : ∀ e a s, R a → E e a s)
    (hdone : ∀ op a s, R a → Q (op, true) a s)
    (hQ : ∀ op a s, R a → op.unresolved = true → Q (op, false) a s) :
    powers.wp (gateway cfg) t (journalWithdrawal cfg op rest) Q E a s := by
  have decided : ∀ (progress : Option Json) (a : Agent) (s : World), R a →
      (∀ p, progress = some p → ∃ x, a.woken = some (.withdrawalJournal op rest, x) ∧
        helperRequest x = .ok p) →
      powers.wp (gateway cfg) t (journalDecision op progress) Q E a s := by
    intro progress a s ha told
    unfold journalDecision
    split
    · exact hQ op a s ha hop
    · rename_i progress' hp
      obtain ⟨x, woken, hx⟩ := told _ (Option.eq_some_of_filter_eq_some hp)
      simp only [wp_ite, wp_bind', powers_store, wp_pure]
      refine ⟨fun ht => ⟨hE _ a s ha, ?_, hdone _ _ _ (Keeping.emit _ rfl ha)⟩,
        fun _ => ⟨fun hu => ⟨hE _ a s ha, ?_, hdone _ _ _ (Keeping.emit _ rfl ha)⟩,
        fun _ => ⟨hE _ a s ha, ?_, hQ _ _ _ (Keeping.emit _ rfl ha) hop⟩⟩⟩
      · exact agentOk_withdrawal ha (.inr ⟨_, x, woken,
          .inr (.inl ⟨op, rest, progress', rfl, rfl, hx, ht.1, ht.2⟩)⟩) (.inr rfl)
      · exact agentOk_withdrawal ha (.inr ⟨_, x, woken,
          .inr (.inl ⟨op, rest, rfl, rfl, progress', hx, hu⟩)⟩) (.inr rfl)
      · exact agentOk_withdrawal ha (.inl hop) (.inr rfl)
  unfold journalWithdrawal
  refine (wp_ite _ _ _).2 ⟨fun _ => (wp_bind' _).2 ?_, fun _ => ?_⟩
  · exact powers_journal rfl h hE (fun a s ha => decided none a s ha fun _ hp => (by cases hp))
      fun x progress a s reads hx => decided _ a s reads.task fun p hp =>
        ⟨x, reads.woken, by rw [hx, Option.some.inj hp]⟩
  · exact decided none a s h fun _ hp => (by cases hp)

/-- The reconciliation loop. -/
instance does_settleWithdrawals (ops : List Operation) : Does cfg R (settleWithdrawals cfg ops) := by
  refine ⟨?_⟩
  induction ops with
  | nil => exact fun t a s h => h
  | cons op rest ih =>
    intro t a s h
    unfold settleWithdrawals
    refine (wp_ite _ _ _).2 ⟨fun hop => (wp_bind' _).2 ?_, fun _ => ih t s h⟩
    refine powers_journalWithdrawal h hop (fun _ _ _ h => h) (fun _ a s h => ih t s h)
      fun op a s h hop => ?_
    refine (wp_bind' _).2 (powers_transactionState (fun _ hxs => show (Judged.withdrawal op rest).transactions = _ from hxs) h (fun _ _ _ h => h)
      fun v a s h hv => ?_)
    have settled : ∀ op' : Operation, op'.id = op.id → Ruled a (.withdrawal op rest) v →
        (v = .succeeded ∧ op'.state = .succeeded ∨ v = .failed ∧ op'.state = .failed) →
        powers.wp (gateway cfg) t (do store (.putOperation .settle op'); settleWithdrawals cfg rest)
          (fun _ a _ => R a) (fun _ a _ => R a) a s := by
      rintro op' hid ⟨seen, tx, x, all, woken, hall, hv, hashes⟩ hs
      refine (wp_bind' _).2 ((powers_store _ _).2 ⟨h, agentOk_withdrawal h (.inr ⟨_, x, woken, ?_⟩)
        (.inr rfl), ih t _ (Keeping.emit _ rfl h)⟩)
      have ruled : Receipted op'.id (.receipt (.withdrawal op rest) seen tx) x v :=
        ⟨op, rest, seen, tx, all, rfl, hid.symm, hall, hv, hashes⟩
      rcases hs with ⟨rfl, hs⟩ | ⟨rfl, hs⟩
      · rw [hs]
        exact .inr (.inr ruled)
      · rw [hs]
        exact .inr (.inr ruled)
    split
    · exact settled _ rfl (hv.resolve_left fun h => (by cases h)) (.inl ⟨rfl, rfl⟩)
    · exact settled _ rfl (hv.resolve_left fun h => (by cases h)) (.inr ⟨rfl, rfl⟩)
    · exact h

/-- What is known of a withdrawal when its submission raises. -/
def Unconfirmed (a : Agent) (op : Operation) (e : Exc) : Prop :=
  op.state = .succeeded ∨ op.kind = .withdraw ∧ ∃ o x, a.woken = some (.withdrawPost o, x) ∧
    o.id = op.id ∧ ∀ g, e = .gateway g → g.outcome = .notSubmitted →
      labelOf (request (.withdraw op.id) x) = some .notSubmitted

/-- The POST of a withdrawal, its outcome and the reads after it. -/
theorem powers_submitWithdrawal {op : Operation} (h : R a) (hop : op.kind = .withdraw)
    {Q : Unit → Agent → World → Prop} {E : Operation × Exc → Agent → World → Prop}
    (hE : ∀ op e a s, R a → Unconfirmed a op e → E (op, e) a s) (hQ : ∀ a s, R a → Q () a s) :
    powers.wp (gateway cfg) t (submitWithdrawal op) Q E a s := by
  have paid : ∀ op : Operation, op.state = .succeeded → ∀ {a : Agent} {s : World}, R a →
      powers.wp (gateway cfg) t (do
        discard <| (Coro.ofExcept (readStakes (← suspend (.withdrawnStakes op)))).mapError fun e => (op, e)
        discard <| (Coro.ofExcept (readBalances (← suspend (.withdrawnBalances op)))).mapError
          fun e => (op, e)
        storeOther.mapError fun e => (op, e)) Q E a s := by
    intro op hs a s h
    have err : ∀ e a s, R a → E (op, e) a s := fun e a s h => hE op e a s h (.inl hs)
    refine (wp_bind' _).2 (powers_suspend rfl h fun x a s reads => ?_)
    simp only [wp_bind', wp_discard, wp_mapError, wp_ofExcept]
    refine ⟨fun _ _ => ?_, fun e _ => err e a s reads.task⟩
    refine powers_suspend rfl reads.task fun x a s reads => ?_
    simp only [wp_bind', wp_discard, wp_mapError, wp_ofExcept]
    refine ⟨fun _ _ => ?_, fun e _ => err e a s reads.task⟩
    exact Keeps.then reads.task (fun _ a s h => hQ a s h) fun e a s h => err e a s h
  unfold submitWithdrawal
  refine (wp_bind' _).2 ⟨⟨fun k hk => ?_, hR.ne h, trivial⟩, fun s' x _ _ => ?_⟩
  · obtain rfl := Option.some.inj hk
    exact hw.may h
  · have reads : Reads R (.withdrawPost op) x
        ((a.next (.park (.withdrawPost op))).next (.wake (.withdrawPost op) x)) :=
      ⟨hw.wake _ x rfl (hw.park _ rfl h), rfl⟩
    refine (wp_bind' _).2 ((wp_mapError _ _).2 ((wp_ofExcept _).2 ⟨fun result hr => ?_, fun e he => ?_⟩))
    · dsimp only
      refine (wp_ite _ _ _).2 ⟨fun _ => ?_, fun ht => ?_⟩
      · exact hE _ _ _ _ reads.task (.inr ⟨hop, op, x, reads.woken, rfl, fun g hg ho => by
          obtain rfl := Exc.gateway.inj hg
          cases ho⟩)
      · refine (wp_bind' _).2 ((wp_mapError _ _).2 ((powers_store _ _).2 ⟨?_, ?_, ?_⟩))
        · exact hE _ _ _ _ reads.task (.inl rfl)
        · exact agentOk_withdrawal reads.task (.inr ⟨_, x, reads.woken,
            .inl ⟨op, result, rfl, rfl, hr, not_not.1 ht⟩⟩) (.inl rfl)
        · exact paid _ rfl (Keeping.emit _ rfl reads.task)
    · refine hE _ _ _ _ reads.task (.inr ⟨hop, op, x, reads.woken, rfl, fun g hg ho => ?_⟩)
      rw [he, hg]
      exact congrArg some ho

omit hR in
/-- The handlers store what is known of a withdrawal that is not confirmed. -/
theorem powers_withdrawalFailed {op : Operation} {e : Exc} (h : R a) (hop : Unconfirmed a op e) :
    powers.wp (gateway cfg) t (withdrawalFailed (op, e)) (fun _ a _ => R a) (fun _ a _ => R a) a s := by
  have stored : ∀ op' : Operation, op.state ≠ .succeeded → op'.id = op.id → op'.kind = op.kind →
      (op'.state = .uncertain ∨ op'.state = .failed ∧ ∃ g, e = .gateway g ∧ g.outcome = .notSubmitted) →
      powers.wp (gateway cfg) t (do store (.putOperation .withdraw op'); Coro.raise e : Op Unit)
        (fun _ a _ => R a) (fun _ a _ => R a) a s := by
    intro op' hne hid hk hs
    obtain ⟨kind, o, x, woken, ho, label⟩ := hop.resolve_left hne
    refine (wp_bind' _).2 ((powers_store _ _).2 ⟨h, agentOk_withdrawal h ?_ (.inl rfl),
      Keeping.emit _ rfl h⟩)
    rcases hs with hs | ⟨hs, g, hg, hn⟩
    · exact .inl (by simp [Operation.unresolved, hs, hk, kind])
    · refine .inr ⟨_, x, woken, ?_⟩
      rw [hs, hid]
      exact .inl ⟨o, rfl, ho, label g hg hn⟩
  have raised : powers.wp (gateway cfg) t (Coro.raise e : Op Unit) (fun _ a _ => R a)
    (fun _ a _ => R a) a s := h
  cases e with
  | gateway g =>
    refine (wp_ite _ _ _).2 ⟨fun hne => stored _ hne rfl rfl ?_, fun _ => raised⟩
    dsimp only
    split_ifs with hn
    · exact .inr ⟨rfl, g, rfl, hn⟩
    · exact .inl rfl
  | _ => exact (wp_ite _ _ _).2 ⟨fun hne => stored _ hne rfl rfl (.inl rfl), fun _ => raised⟩

instance (manual : Bool) (recovery : RecoveryPolicy) (stakes : Stakes) (balances : Balances) :
    Does cfg R (Sessions.withdraw manual recovery stakes balances) := by
  have submitted : ∀ op : Operation, op.kind = .withdraw → op.state = .submitting → Does cfg R (do
      store (.putOperation .withdraw op)
      store .lastWithdrawal
      (submitWithdrawal op).tryCatch withdrawalFailed
      event : Op Unit) := by
    refine fun op hk hs => .bind ⟨fun t a s h => ?_⟩ fun _ => .bind inferInstance fun _ =>
      .bind ⟨fun t a s h => ?_⟩ fun _ => inferInstance
    · refine (powers_store _ _).2 ⟨h, agentOk_withdrawal h (.inl ?_) (.inl rfl), Keeping.emit _ rfl h⟩
      simp [Operation.unresolved, hk, hs]
    · exact (wp_tryCatch _).2 (powers_submitWithdrawal h hk
        (fun op e a s h hop => powers_withdrawalFailed h hop) fun a s h => h)
  have drawn : ∀ id time, Does cfg R (do
      let op : Operation :=
        { id := id, kind := .withdraw, state := .submitting, createdAt := time,
          message := "Withdrawing eligible MOR to this node's wallet" }
      store (.putOperation .withdraw op)
      store .lastWithdrawal
      (submitWithdrawal op).tryCatch withdrawalFailed
      event : Op Unit) := fun id time => submitted _ rfl rfl
  unfold Sessions.withdraw
  dsimp only at drawn ⊢
  infer_instance

instance (manual : Bool) : Does cfg R (treasury cfg manual) := by
  unfold treasury
  infer_instance

instance [Does cfg R (sweepWallet cfg)] : Does cfg R (sweep cfg) := by
  unfold sweep
  infer_instance

end Withdrawals

instance [Awaits R] [Grants R .saveKey] [Grants R .queue] [Grants R .askProvider] (call : ChatCall)
    (m : ModelPolicy) (stream : Bool) (c : Cleanup) : Does cfg R (serve cfg call m stream c) := by
  unfold serve
  dsimp only
  infer_instance

instance [Awaits R] [Grants R .saveKey] [Grants R .queue] [Grants R .askProvider]
    (call : ChatCall) : Does cfg R (completion cfg call) := by
  unfold completion
  refine .bind inferInstance fun key => .bind inferInstance fun a => ?_
  split
  · split
    all_goals infer_instance
  · split
    · dsimp only
      refine .bind inferInstance fun p => ?_
      split
      · infer_instance
      · split
        · infer_instance
        · refine .bind inferInstance fun _ => .bind inferInstance fun m => ?_
          split
          · infer_instance
          · refine .bind inferInstance fun _ => .bind inferInstance fun request =>
              .bind inferInstance fun _ => .bind inferInstance fun r => ?_
            split
            all_goals infer_instance
    · infer_instance

/-! ### The programs -/

instance (c : Op α) [Does cfg R c] : Does cfg R (handled c) := by
  unfold handled
  infer_instance

instance [Lasting R] (handle : ℕ) (c : Op Unit) [Does cfg R c] : Does cfg R (settled handle c) := by
  unfold settled
  infer_instance

instance [Awaits R] [Grants R .closeSession] (id : RowId) : Does cfg R (scheduledClose cfg id) := by
  unfold scheduledClose
  refine .bind inferInstance fun r => .bind inferInstance fun _ => ?_
  split
  all_goals infer_instance

instance : Does cfg R recoveryRun := by
  unfold recoveryRun
  infer_instance

instance : Does cfg R startWithdrawal := by
  unfold startWithdrawal
  infer_instance

instance [Awaits R] : Does cfg R (status cfg) := by
  unfold status
  dsimp only
  infer_instance

/-- The task's program is `p`. -/
def Program.Is (p : Program) (a : Agent) : Prop := a.program = p

/-- A task goes on in its program. -/
theorem Program.Is.next {p : Program} {a : Agent} (h : p.Is a) (x : LogEntry) : p.Is (a.next x) :=
  (Agent.next_program a x).trans h

instance (p : Program) : Keeping p.Is := ⟨fun _ _ h => h.next _⟩

instance (p : Program) : Lasting p.Is := ⟨fun _ _ h => h.next _⟩

/-- A program that is not `create_key` may await. -/
theorem awaits_of_ne {p : Program} (h : ∀ key idem, p ≠ .createKey key idem) : Awaits p.Is where
  ne {a} hq key idem := by
    rw [show a.program = p from hq]
    exact h key idem
  park _ _ h := h.next _
  wake _ _ _ h := h.next _

/-- A power of the program is one of its tasks. -/
theorem grants_of_may {p : Program} {k : Power} (h : p.may k) : Grants p.Is k where
  may {a} hq := by rwa [show a.program = p from hq]
  park _ _ h := h.next _
  wake _ _ _ h := h.next _

/-- A coroutine that is in order in the tasks of a program keeps the contract. -/
theorem Does.body {p : Program} {c : OpE Empty Unit} (h : Does cfg p.Is c) (t : ℕ) (s : World) :
    powers.wp (gateway cfg) t c (fun _ a s => powers.ok t a s .stop) (fun e => nomatch e)
      (powers.enter p) s :=
  h.then (show (powers.enter p).program = p from rfl) (fun _ _ _ _ => trivial) fun e => nomatch e

/-- The settings are saved over the revision they were read at. -/
theorem does_putPolicy (p : Policy) : Does cfg (Program.Is (.putPolicy p)) (putPolicy p) := by
  have : Awaits (Program.Is (.putPolicy p)) := awaits_of_ne fun _ _ h => (by cases h)
  refine ⟨fun t a s h => (wp_bind' _).2 ((powers_fetch _ _).2 ⟨h, ?_⟩)⟩
  dsimp only
  split
  · exact h
  · rename_i same
    refine (wp_bind' _).2 ((powers_store _ _).2 ⟨h, ⟨fun k hk => ?_, .inl ⟨p, h, not_not.1 same, rfl⟩⟩, ?_⟩)
    · obtain rfl := Option.some.inj hk
      rw [show a.program = .putPolicy p from h]
      trivial
    · have rest : Does cfg (Program.Is (.putPolicy p)) (do event; rebalance : Op Unit) := inferInstance
      exact rest.wp t _ h

/-- A close that ends the maintenance of a model saves the settings that it has just read. -/
theorem does_close (id : RowId) (stop : Bool) : Does cfg (Program.Is (.close id stop)) (close cfg id stop) := by
  have : Awaits (Program.Is (.close id stop)) := awaits_of_ne fun _ _ h => (by cases h)
  have : Grants (Program.Is (.close id stop)) .closeSession := grants_of_may trivial
  have locked : Does cfg (Program.Is (.close id stop)) (withLock (closeLocked cfg id)) := inferInstance
  unfold close
  refine .bind inferInstance fun row => ?_
  split
  · infer_instance
  · dsimp only
    have saved : ∀ {t a s}, stop = true → Program.Is (.close id stop) a → ∀ m : ModelPolicy,
        powers.wp (gateway cfg) t (do
          store (.policy (s.store.policy.stopMaintaining m.id).bump)
          withLock (closeLocked cfg id)) (fun _ a _ => Program.Is (.close id stop) a)
          (fun _ a _ => Program.Is (.close id stop) a) a s := by
      intro t a s hs h m
      refine (wp_bind' _).2 ((powers_store _ _).2 ⟨h, ⟨fun k hk => ?_, .inr ⟨id, m.id, ?_, rfl⟩⟩,
        locked.wp t _ (Keeping.emit _ rfl h)⟩)
      · obtain rfl := Option.some.inj hk
        rw [show a.program = .close id stop from h]
        trivial
      · rw [show a.program = .close id stop from h, hs]
    split
    on_goal 1 => refine .bind inferInstance fun _ => ?_
    all_goals
      split
      · rename_i hs
        refine .bind inferInstance fun row =>
          ⟨fun t a s h => (wp_bind' _).2 ((powers_fetch _ _).2 ⟨h, ?_⟩)⟩
        split
        · exact saved hs h _
        · exact locked.wp t s h
      · exact locked

/-- The key that the console changes is stored. -/
theorem does_editKey (id : String) (models : List String) (concurrency rpm : ℕ) :
    Does cfg (Program.Is (.editKey id models concurrency rpm)) (editKey id models concurrency rpm) := by
  refine ⟨fun t a s h => (wp_bind' _).2 ((powers_fetch _ _).2 ⟨h, ?_⟩)⟩
  dsimp only
  split
  · exact h
  · refine (wp_bind' _).2 ((powers_fetch _ _).2 ⟨h, ?_⟩)
    split
    · rename_i key hkey
      refine (powers_store _ _).2 ⟨h, ⟨fun k hk => ?_, .inl (.of_find hkey rfl rfl fun he => he)⟩, h⟩
      obtain rfl := Option.some.inj hk
      rw [show a.program = _ from h]
      trivial
    · exact h

/-- A revocation revokes the key that it was asked for. -/
theorem does_revoke (id : String) : Does cfg (Program.Is (.revokeKey id)) (revoke id) := by
  refine ⟨fun t a s h => (wp_bind' _).2 ((powers_fetch _ _).2 ⟨h, ?_⟩)⟩
  split
  · rename_i key hkey
    refine (wp_bind' _).2 ((powers_store _ _).2 ⟨h, ⟨fun k hk => ?_,
      .inl (.of_find hkey rfl rfl fun he => (by cases he))⟩, ?_⟩)
    · obtain rfl := Option.some.inj hk
      rw [show a.program = _ from h]
      trivial
    · exact Keeps.wp (R := (Program.revokeKey id).Is) t _ h
  · exact h

/-- `create_key` stores one key, without an await. -/
theorem wp_createKey (key : ApiKey) (idem : Option String) (t : ℕ) (s : World) :
    powers.wp (gateway cfg) t (handled (createKey key idem)) (fun _ _ _ => True)
      (fun e => nomatch e) { program := .createKey key idem } s := by
  have made : ∀ {a s'}, a = { program := .createKey key idem } → AgentOk a s'
      (.emit (.key { key with enabled := true, lastUsed := none })) := by
    rintro a s' rfl
    refine ⟨fun k hk => ?_, .inr ⟨rfl, key, idem, rfl, rfl⟩⟩
    obtain rfl := Option.some.inj hk
    trivial
  have stored : ∀ {a s'}, a = { program := .createKey key idem } → powers.wp (gateway cfg) t (do
      store (.key { key with enabled := true, lastUsed := none })
      event : Op Unit) (fun _ _ _ => True) (fun _ _ _ => True) a s' := by
    intro a s' ha
    have told : Does cfg (Program.Is (.createKey key idem)) event := inferInstance
    refine (wp_bind' _).2 ((powers_store _ _).2 ⟨trivial, made ha, ?_⟩)
    refine told.then ?_ (fun _ _ _ _ => trivial) fun _ _ _ _ => trivial
    show (a.next _).program = _
    rw [Agent.next_program, ha]
  unfold handled
  rw [wp_discard, wp_attempt]
  unfold createKey
  dsimp only
  cases Option.map (fun idem => ("create-key", idem)) (given idem) with
  | none =>
    dsimp only
    refine (wp_bind' _).2 ((powers_fetch _ _).2 ⟨trivial, (wp_ite _ _ _).2 ⟨fun _ => trivial, fun _ => ?_⟩⟩)
    exact stored rfl
  | some marker =>
    dsimp only
    refine (wp_bind' _).2 ((powers_fetch _ _).2 ⟨trivial, (wp_ite _ _ _).2 ⟨fun _ => trivial, fun _ => ?_⟩⟩)
    refine (wp_bind' _).2 ((powers_fetch _ _).2 ⟨trivial, (wp_ite _ _ _).2 ⟨fun _ => trivial, fun _ => ?_⟩⟩)
    refine (wp_bind' _).2 ((wp_bind' _).2 ((wp_bind' _).2 ((powers_store _ _).2 ⟨trivial, ?_, stored rfl⟩)))
    exact ⟨fun k hk => (by cases hk), trivial⟩

/-- The task is a sweep that is not done. -/
def Sweeps (handle : ℕ) (a : Agent) : Prop :=
  a.program = .task handle .sweep ∧ a.done = false

/-- A sweep goes on until it finishes. -/
theorem Sweeps.next {handle : ℕ} {a : Agent} (h : Sweeps handle a) {x : LogEntry}
    (hx : ∀ h r, x ≠ .emit (.finish h r)) : Sweeps handle (a.next x) :=
  ⟨(a.next_program x).trans h.1, (a.next_done hx).trans h.2⟩

instance (handle : ℕ) : Keeping (Sweeps handle) where
  emit e he h := h.next fun _ _ hx => by
    cases hx
    cases he

instance (handle : ℕ) : Awaits (Sweeps handle) where
  ne {a} h key idem hk := by cases h.1.symm.trans hk
  park i _ h := h.next fun _ _ hx => by cases hx
  wake i x _ h := h.next fun _ _ hx => by cases hx

instance (handle : ℕ) : Undone (Sweeps handle) where
  done h := h.2
  scan n h := h.next fun _ _ hx => by cases hx

/-- A sweep scans the wallet while it is not done. -/
theorem wp_sweep (handle t : ℕ) (s : World) :
    powers.wp (gateway cfg) t (settled handle (sweep cfg)) (fun _ _ _ => True)
      (fun e => nomatch e) (powers.enter (.task handle .sweep)) s := by
  have may : ∀ k, (Program.task handle .sweep).may k → Grants (Sweeps handle) k :=
    fun k hk => ⟨fun {a} h => by rwa [h.1], fun _ _ h => h.next fun _ _ hx => (by cases hx),
      fun _ _ _ h => h.next fun _ _ hx => (by cases hx)⟩
  have := may .withdrawStake trivial
  have := may .scanWallet trivial
  have sweeps : Does cfg (Sweeps handle) (sweep cfg) := inferInstance
  have finish : ∀ r a s, AgentOk a s (.emit (.finish handle r)) :=
    fun r a s => ⟨fun k hk => (by cases hk), trivial⟩
  unfold settled
  refine (wp_bind' _).2 ((wp_attempt _).2 (sweeps.then ⟨rfl, rfl⟩ (fun _ a s _ => ?_) fun _ a s _ => ?_))
  · exact ⟨finish _ a s, trivial⟩
  · exact ⟨finish _ a s, trivial⟩

/-- An opener starts having sent nothing. -/
theorem wp_opener (handle : ℕ) (modelId : String) (revision t : ℕ) (s : World) :
    powers.wp (gateway cfg) t (openerTask cfg handle modelId revision) (fun _ _ _ => True)
      (fun e => nomatch e) (powers.enter (.task handle (.opener modelId revision))) s := by
  have : Awaits (Program.Is (.task handle (.opener modelId revision))) :=
    awaits_of_ne fun _ _ h => (by cases h)
  have := grants_of_may (p := .task handle (.opener modelId revision)) (k := .selectBid) trivial
  have := grants_of_may (p := .task handle (.opener modelId revision)) (k := .openSession) trivial
  have rest : ∀ r, Does cfg (Program.Is (.task handle (.opener modelId revision))) (do
      perform (.finish handle r)
      handled (spawn (.openerDone handle modelId)) : OpE Empty Unit) := fun r => inferInstance
  have ended : ∀ r {a s}, Program.Is (.task handle (.opener modelId revision)) a →
      powers.wp (gateway cfg) t (do
        perform (.finish handle r)
        handled (spawn (.openerDone handle modelId)) : OpE Empty Unit) (fun _ _ _ => True)
        (fun e => nomatch e) a s := fun r a s h => (rest r).then h (fun _ _ _ _ => trivial) fun e => nomatch e
  unfold openerTask settled
  have ready : Ready (Program.Is (.task handle (.opener modelId revision))) []
      (powers.enter (.task handle (.opener modelId revision))) := ⟨⟨rfl, rfl⟩, fun _ h => (by cases h)⟩
  refine (wp_bind' _).2 ((wp_bind' _).2 ((wp_attempt _).2 (powers_openModel ready
    (fun e a s h => ?_) fun a s h => ?_)))
  · exact (wp_bind' _).1 (ended (.error e) h)
  · exact (wp_bind' _).1 (ended (.ok ()) h)

/-- **Every program keeps to its powers.** -/
theorem powers_holds (cfg : Config) : powers.Holds (gateway cfg) where
  body {s t p s'} _ := by
    show powers.wp (gateway cfg) t (MorpheusGateway.body cfg t p) _ _ (powers.enter p) s'
    by_cases hk : ∃ key idem, p = .createKey key idem
    · obtain ⟨key, idem, rfl⟩ := hk
      exact wp_mono (fun _ _ _ _ => trivial) (fun e => nomatch e) _ (wp_createKey key idem t s')
    by_cases hs : ∃ handle, p = .task handle .sweep
    · obtain ⟨handle, rfl⟩ := hs
      exact wp_mono (fun _ _ _ _ => trivial) (fun e => nomatch e) _ (wp_sweep handle t s')
    by_cases ho : ∃ handle modelId revision, p = .task handle (.opener modelId revision)
    · obtain ⟨handle, modelId, revision, rfl⟩ := ho
      exact wp_mono (fun _ _ _ _ => trivial) (fun e => nomatch e) _
        (wp_opener handle modelId revision t s')
    have awaits : Awaits p.Is := awaits_of_ne fun key idem h => hk ⟨key, idem, h⟩
    refine Does.body ?_ t s'
    cases p with
    | task handle w =>
      cases w with
      | opener modelId revision => exact absurd ⟨handle, modelId, revision, rfl⟩ ho
      | scheduledClose id =>
        have := grants_of_may (p := .task handle (.scheduledClose id)) (k := .closeSession) trivial
        show Does cfg (Program.Is _) (settled handle (scheduledClose cfg id))
        infer_instance
      | sweep => exact absurd ⟨handle, rfl⟩ hs
      | treasury =>
        have := grants_of_may (p := .task handle .treasury) (k := .withdrawStake) trivial
        show Does cfg (Program.Is _) (settled handle (treasury cfg true))
        infer_instance
      | restart op immediate applyRating =>
        have := grants_of_may (p := .task handle (.restart op immediate applyRating))
          (k := .restartNode) trivial
        show Does cfg (Program.Is _) (settled handle (_restart cfg op immediate applyRating))
        infer_instance
      | openerDone opener modelId =>
        show Does cfg (Program.Is _) (handled (Sessions.openerDone opener modelId))
        infer_instance
      | cleanup c =>
        show Does cfg (Program.Is _) (settled handle (cleanup c))
        infer_instance
      | tick =>
        show Does cfg (Program.Is _) (settled handle (runTurn cfg))
        infer_instance
    | chat call =>
      have := grants_of_may (p := .chat call) (k := .saveKey) trivial
      have := grants_of_may (p := .chat call) (k := .queue) trivial
      have := grants_of_may (p := .chat call) (k := .askProvider) trivial
      show Does cfg (Program.Is _) (handled (completion cfg call))
      infer_instance
    | prewarm modelId rounds =>
      have := grants_of_may (p := .prewarm modelId rounds) (k := .queue) trivial
      show Does cfg (Program.Is _) (handled (acquire cfg modelId true rounds))
      infer_instance
    | close id stop =>
      have := @does_close cfg id stop
      show Does cfg (Program.Is _) (handled (close cfg id stop))
      infer_instance
    | putPolicy p =>
      have := @does_putPolicy cfg p
      show Does cfg (Program.Is _) (handled (putPolicy p))
      infer_instance
    | editKey id models concurrency rpm =>
      have := @does_editKey cfg id models concurrency rpm
      show Does cfg (Program.Is _) (handled (editKey id models concurrency rpm))
      infer_instance
    | revokeKey id =>
      have := @does_revoke cfg id
      show Does cfg (Program.Is _) (handled (revoke id))
      infer_instance
    | createKey key idem => exact absurd ⟨key, idem, rfl⟩ hk
    | run =>
      show Does cfg (Program.Is _) (handled (run cfg))
      infer_instance
    | bind id chainId =>
      show Does cfg (Program.Is _) (handled (Sessions.bind cfg id chainId))
      infer_instance
    | recoveryRun =>
      show Does cfg (Program.Is _) (handled recoveryRun)
      infer_instance
    | withdraw =>
      show Does cfg (Program.Is _) (handled startWithdrawal)
      infer_instance
    | restart immediate applyRating =>
      show Does cfg (Program.Is _) (handled (restart cfg immediate applyRating))
      infer_instance
    | status =>
      show Does cfg (Program.Is _) (handled (status cfg))
      infer_instance
  site_park _ _ := rfl
  refl _ := trivial
  trans _ _ := trivial
  emit _ := trivial
  begin _ := trivial
  drift _ _ := trivial

end Powers

end MorpheusGateway
