/-
# The shared parts keep the protocol

The functions of `Sessions.Basic`.  All but `verifyIdentity` and `candidates` have
no await, so they stay at the place they start from.
-/

import MorpheusGateway.Protocol.Steps

namespace MorpheusGateway

open Contract Sessions

variable {cfg : Config} {t : ℕ} {A : Place → Prop} {pc : Pc} {s : World} {ε α : Type}

/-- Storing a record in a way that leaves the control point as it was. -/
theorem quiet_putRow (h : pc.At A) {w : Writer} {row : Row} (hw : RowWrite cfg pc s row w)
    (hp : pc.emit (.put w row) = pc) : Quiet cfg t A (putRow w row) pc s :=
  quiet_store h hw hp

/-! ### The wallet lock -/

/-- The lock is given back as it was taken. -/
theorem Pc.lock_unlock {p q : Place} (hl : pc.lock = false) :
    (((pc.move p).emit .lock).move q).emit .unlock = pc.move q := by
  cases pc
  simp_all [Pc.emit, Pc.move]

/-- What a coroutine leaves that runs under the lock. -/
def Unlocks (pc : Pc) (s : World) (pc' : Pc) (s' : World) : Prop :=
  pc'.lock = true ∧ (∃ p, pc'.emit .unlock = (pc.move p).emit .unlock) ∧ Grows s s'

/-- `c` keeps the protocol and ends, one way or another, with the lock. -/
def Locked (cfg : Config) (t : ℕ) (c : OpE ε α) (pc : Pc) (s : World) : Prop :=
  Wp cfg t c (fun _ => Unlocks pc s) (fun _ => Unlocks pc s) pc s

/-- A task that moves on under the lock may still rely on it. -/
theorem Unlocks.move {p : Place} {s' : World} (hl : pc.lock = true) (g : Grows s s') :
    Unlocks pc s (pc.move p) s' := ⟨hl, ⟨p, rfl⟩, g⟩

/-- What is reached later under the lock is reached. -/
theorem Unlocks.trans {p : Place} {s' s'' : World} {pc' : Pc} (g : Grows s s')
    (h : Unlocks (pc.move p) s' pc' s'') : Unlocks pc s pc' s'' := by
  obtain ⟨hl, ⟨q, e⟩, g'⟩ := h
  exact ⟨hl, ⟨q, e⟩, g.trans g'⟩

/-- What may run under the lock may run later. -/
theorem Locked.later {c : OpE ε α} {p : Place} {s' : World} (h : Locked cfg t c (pc.move p) s')
    (g : Grows s s') :
    Wp cfg t c (fun _ => Unlocks pc s) (fun _ => Unlocks pc s) (pc.move p) s' :=
  wp_mono (fun _ _ _ => Unlocks.trans g) (fun _ _ _ => Unlocks.trans g) c h

/-- A task that has just taken the lock is somewhere. -/
theorem Pc.at_lock {p : Place} : ((pc.move p).emit .lock).At Anywhere :=
  ⟨⟨rfl, rfl, rfl, rfl⟩, trivial⟩

/-- What is quiet may run under the lock. -/
theorem Quiet.locked {c : Op α} (hl : pc.lock = true) (hc : Quiet cfg t A c pc s) :
    Locked cfg t c pc s :=
  wp_quiet hc (fun _ _ _ g _ => .move hl g) fun _ _ _ g _ => .move hl g

/-- What runs under the lock may rely on it.  `B` is what its result says of the place and the
store. -/
theorem wp_withLock {c : Op α} {B : α → Place → World → Prop}
    (hB : ∀ {a p s s'}, s'.store = s.store → B a p s → B a p s') (h : pc.At Anywhere) (hl : pc.lock = false)
    (hc : ∀ p s', Grows s s' → Wp cfg t c
      (fun a pc' s2 => B a pc'.place s2 ∧ Unlocks ((pc.move p).emit .lock) s' pc' s2)
      (fun _ => Unlocks ((pc.move p).emit .lock) s') ((pc.move p).emit .lock) s') :
    Wp cfg t (withLock c) (fun a pc' s' => B a pc'.place s' ∧ After Anywhere pc s pc' s')
      (fun _ => After Anywhere pc s) pc s := by
  have locked : ∀ p s', Grows s s' → s'.memory.lock = none →
      Wp cfg t (do Coro.perform .lock; c.tryFinally (Coro.perform .unlock))
        (fun a pc' s' => B a pc'.place s' ∧ After Anywhere pc s pc' s') (fun _ => After Anywhere pc s)
        (pc.move p) s' := by
    intro p s' g hn
    have hlock : EventOk cfg (pc.move p) s' .lock := ⟨hn, hl⟩
    have unlock : ∀ {s2 pc'}, Unlocks ((pc.move p).emit .lock) (s'.apply t .lock) pc' s2 →
        EventOk cfg pc' s2 .unlock ∧ (pc'.emit .unlock).place = pc'.place ∧
          After Anywhere pc s (pc'.emit .unlock) (s2.apply t .unlock) := by
      rintro s2 pc' ⟨hl', ⟨q, e⟩, g2⟩
      refine ⟨hl', rfl, ?_⟩
      rw [e, Pc.lock_unlock hl]
      exact After.move trivial ((g.trans ((Grows.apply t hlock).trans g2)).trans (by simp))
    have hc' := hc p _ (g.trans (Grows.apply t hlock))
    refine (wp_bind' _).2 ((wp_perform _).2 ⟨hlock, (wp_tryFinally _).2 ?_⟩)
    refine wp_mono (fun a pc' s2 hu => ?_) (fun e pc' s2 hu => ?_) c hc'
    · exact ⟨(unlock hu.2).1, hB (s := s2) rfl hu.1, (unlock hu.2).2.2⟩
    · exact ⟨(unlock hu).1, (unlock hu).2.2⟩
  unfold withLock
  refine (wp_bind' _).2 ((wp_memory _).2 ((wp_ite _ _ _).2 ⟨fun _ => ?_, fun hn => ?_⟩))
  · refine (wp_bind' _).2 ((wp_suspend _).2 ⟨⟨trivial, h.clean.2.2.2⟩, fun s1 a g hlegal => ?_⟩)
    have g' : Grows s s1 := g
    rw [next_await]
    split
    · refine locked _ s1 g' ?_
      simpa [World.legal] using hlegal
    · exact .move trivial g'
  · have := locked pc.place s (Grows.refl s) (by simpa using hn)
    rwa [h.clean.move_self] at this

/-- The same when the result does not matter. -/
theorem quiet_withLock {c : Op α} (h : pc.At Anywhere) (hl : pc.lock = false)
    (hc : ∀ p s', Grows s s' → Locked cfg t c ((pc.move p).emit .lock) s') :
    Quiet cfg t Anywhere (withLock c) pc s :=
  wp_mono (fun _ _ _ h => h.2) (fun _ _ _ h => h) _
    (wp_withLock (B := fun _ _ _ => True) (fun _ h => h) h hl fun p s' g =>
      wp_mono (fun _ _ _ hu => ⟨trivial, hu⟩) (fun _ _ _ hu => hu) _ (hc p s' g))

/-! ### The identity check, errors and the ranking of providers -/

/-- The wallet taken over is that of the installation. -/
theorem wp_adopt {identity : Identity} {p : Place} {s s' : World} (hp : A p) (g : Grows s s')
    (hi : ∃ j, s'.store.installation = some j ∧ j.wallet = identity.wallet) :
    Wp cfg t (do
      Coro.perform (.identity identity)
      Coro.perform (.ready true)
      return identity : Op Identity) (fun _ => After A (pc.move p) s)
      (fun _ => After A (pc.move p) s) (pc.move p) s' := by
  refine (wp_bind' _).2 ((wp_perform _).2 ⟨hi, (wp_bind' _).2 ((wp_perform _).2 ⟨trivial, ?_⟩)⟩)
  have g' : Grows s ((s'.apply t (.identity identity)).apply t (.ready true)) := by simp [g]
  exact (Pc.at_move hp).after g'

/-- The identity check is quiet, for whoever may ask. -/
theorem quiet_verifyIdentity {who : Asker} (h : AwaitOk cfg pc s (.identity who))
    (hA : ∀ a, A (.woken (.identity who) a)) (hb : pc.begun = none := by rfl) :
    Quiet cfg t A (verifyIdentity cfg who) pc s := by
  refine .bind (quiet_suspend h hA hb) fun a p s1 hp _ => .bind (quiet_ofExcept (Pc.at_move hp) _)
    fun identity p s2 hp _ => ?_
  have refused : After A (pc.move p) s2 (pc.move p) (s2.apply t (.ready false)) :=
    (Pc.at_move hp).after (by simp)
  refine (wp_bind' _).2 ((wp_fetch _ _).2 ⟨(Pc.at_move hp).refl s2, ?_⟩)
  have adopted : (s2.store.installation.any fun e =>
      e.wallet ≠ identity.wallet || e.chain ≠ identity.chain) = false →
      Quiet cfg t A (do
        if s2.store.installation.isNone then store (.installation identity)
        Coro.perform (.identity identity)
        Coro.perform (.ready true)
        return identity : Op Identity) (pc.move p) s2 := by
    intro hsame
    cases hi : s2.store.installation with
    | none =>
      refine (wp_bind' _).2 ((wp_store _ _).2 ⟨(Pc.at_move hp).refl s2, hi, ?_⟩)
      exact wp_adopt hp (Grows.apply (e := .installation identity) t (show EventOk cfg pc s2 _ from hi)) ⟨identity, rfl, rfl⟩
    | some e =>
      have hwallet : e.wallet = identity.wallet := by
        simp only [hi, Option.any_some, Bool.or_eq_false_iff, decide_eq_false_iff_not,
          ne_eq, Decidable.not_not] at hsame
        exact hsame.1
      exact wp_adopt hp (Grows.refl s2) ⟨e, hi, hwallet⟩
  simp only [wp_bind', wp_ite, wp_perform, wp_raise]
  refine ⟨fun _ => ⟨trivial, refused⟩, fun hsame => ⟨fun _ => ⟨trivial, refused⟩,
    fun _ => ⟨fun _ => ?_, fun _ => ?_⟩⟩⟩
  · refine (wp_ofExcept _).2 ⟨fun found _ => ?_, fun _ _ => (Pc.at_move hp).refl s2⟩
    simp only [wp_bind', wp_ite, wp_perform, wp_raise]
    refine ⟨fun _ => ⟨trivial, refused⟩, fun _ => ?_⟩
    have last := adopted (by simpa using hsame)
    simp only [Quiet, wp_bind', wp_ite, wp_perform] at last
    exact last
  · have last := adopted (by simpa using hsame)
    simp only [Quiet, wp_bind', wp_ite, wp_perform] at last
    exact last

/-- `mark_error` stores the record with its error, or raises. -/
theorem wp_markError_emit {w : Writer} {row : Row} {e : Exc}
    (hw : RowWrite cfg pc s (withError row e s.now) w)
    {Q : Row → Pc → World → Prop} {E : Exc → Pc → World → Prop} (hE : E .storage pc s)
    (hQ : ∀ s', Grows s s' →
      Q (withError row e s.now) (pc.emit (.put w (withError row e s.now))) s') :
    Wp cfg t (markError w row e) Q E pc s := by
  simp only [markError, wp_bind', wp_now, wp_putRow, wp_event, wp_pure, Pc.toss_write]
  exact ⟨hE, hw, hQ _ (by simp), hQ _ (by simp)⟩

/-- The same for a writer that may write again. -/
theorem wp_markError {w : Writer} {row : Row} {e : Exc}
    (hw : RowWrite cfg pc s (withError row e s.now) w) (hp : ∀ row, pc.emit (.put w row) = pc)
    {Q : Row → Pc → World → Prop} {E : Exc → Pc → World → Prop} (hE : E .storage pc s)
    (hQ : ∀ s', Grows s s' → Q (withError row e s.now) pc s') :
    Wp cfg t (markError w row e) Q E pc s :=
  wp_markError_emit hw hE (by rw [hp]; exact hQ)

/-- It is quiet then. -/
theorem quiet_markError (h : pc.At A) {w : Writer} {row : Row} {e : Exc}
    (hw : RowWrite cfg pc s (withError row e s.now) w) (hp : ∀ row, pc.emit (.put w row) = pc) :
    Quiet cfg t A (markError w row e) pc s :=
  wp_markError hw hp (h.refl s) fun _ g => h.after g

/-- Ranking the bids is quiet. -/
theorem quiet_rank (h : pc.At A) (modelId : String) (p : Policy) (bids : List Json) :
    Quiet cfg t A (rank modelId p bids) pc s := by
  induction bids with
  | nil => exact quiet_pure h _
  | cons entry rest ih =>
    simp only [rank, cooldown, Quiet, wp_bind', wp_fetch, wp_now, wp_ofExcept, wp_pure, Pc.toss_read]
    refine ⟨h.refl s, fun _ _ => ?_, fun _ _ => h.refl s⟩
    exact ih

/-- `schedule_close` changes nothing in the store. -/
theorem wp_scheduleClose (hu : pc.uuid = none) (row : Row) {Q : Unit → Pc → World → Prop}
    {E : Exc → Pc → World → Prop} (hQ : ∀ s', Grows s s' → s'.store = s.store ∧
      s'.memory.maintenance = s.memory.maintenance → Q () pc s') :
    Wp cfg t (scheduleClose row) Q E pc s := by
  simp only [scheduleClose, wp_bind', wp_memory, wp_now, wp_ite, wp_pure, wp_perform, wp_discard]
  refine ⟨fun _ => hQ s (Grows.refl s) ⟨rfl, rfl⟩, fun _ => ⟨trivial, wp_spawn_of rfl hu ?_⟩⟩
  exact fun _ s' g hs => hQ s' (Grows.trans (by simp) g) hs

/-- Scheduling a close is quiet. -/
theorem quiet_scheduleClose (h : pc.At A) (row : Row) :
    Quiet cfg t A (scheduleClose row) pc s :=
  wp_scheduleClose h.clean.1 row fun _ g _ => h.after g

/-! ### Lists of records read in the same piece -/

/-- The records of the list are stored as they are, under distinct IDs. -/
structure Stored (s : World) (rows : List Row) : Prop where
  row? : ∀ r ∈ rows, s.row? r.id = some r
  nodup : (rows.map Row.id).Nodup

/-- The records that are listed are stored as they are. -/
theorem stored_sessions (s : World) : Stored s s.sessions where
  row? _ hr := Table.mem_rows.1 (List.mem_of_mem_filter hr)
  nodup := s.store.sessions.nodup.sublist (List.filter_sublist.map _)

/-- In whatever order. -/
theorem Stored.perm {rows rows' : List Row} (h : Stored s rows) (hp : rows'.Perm rows) :
    Stored s rows' :=
  ⟨fun r hr => h.row? r (hp.subset hr), (hp.map _).nodup_iff.2 h.nodup⟩

/-- So are all but the first. -/
theorem Stored.tail {row : Row} {rest : List Row} (h : Stored s (row :: rest)) : Stored s rest :=
  ⟨fun r hr => h.row? r (List.mem_cons_of_mem _ hr), (List.nodup_cons.1 h.nodup).2⟩

/-- So are they in a world with the same store. -/
theorem Stored.of_store {rows : List Row} (h : Stored s rows) {s' : World}
    (hs : s'.store = s.store) : Stored s' rows :=
  ⟨fun r hr => by rw [World.row?, hs]; exact h.row? r hr, h.nodup⟩

/-- A record that is stored is found under its ID. -/
theorem row?_put (s : World) (t : ℕ) (w : Writer) (row : Row) (id : RowId) :
    (s.apply t (.put w row)).row? id = if id = row.id then some row else s.row? id :=
  Table.get_put _ _ _

/-- It is found as it was stored. -/
@[simp] theorem row?_put_self (s : World) (t : ℕ) (w : Writer) (row : Row) :
    (s.apply t (.put w row)).row? row.id = some row := by rw [row?_put, if_pos rfl]

/-- Writing the first record of the list leaves the others as they are. -/
theorem Stored.put {row row' : Row} {rest : List Row} (h : Stored s (row :: rest)) (t : ℕ)
    (w : Writer) (hid : row'.id = row.id) : Stored (s.apply t (.put w row')) rest where
  nodup := h.tail.nodup
  row? r hr := by
    have hne : r.id ≠ row'.id := fun e =>
      (List.nodup_cons.1 h.nodup).1 (hid ▸ e ▸ List.mem_map_of_mem hr)
    rw [row?_put, if_neg hne]
    exact h.tail.row? r hr

/-- The first record of the list, rewritten. -/
theorem Stored.fresh {row row' : Row} {rest : List Row} (h : Stored s (row :: rest))
    {p : Row → Prop} (hk : Kept row row') (hp : p row) : Fresh s row' p :=
  ⟨row, hk.1.1 ▸ h.row? row List.mem_cons_self, hk, hp⟩

/-- `rebalance` starts and ends no maintenance. -/
theorem wp_rebalanceLoop (hu : pc.uuid = none) (p : Policy) (rows : List Row)
    {Q : Unit → Pc → World → Prop} {E : Exc → Pc → World → Prop} :
    ∀ {kept s}, Stored s rows → (∀ s', Grows s s' → E .storage pc s') →
      (∀ s', Grows s s' → s'.memory.maintenance = s.memory.maintenance → Q () pc s') →
      Wp cfg t (rebalanceLoop p kept rows) Q E pc s := by
  induction rows with
  | nil => exact fun _ _ hQ => hQ _ (Grows.refl _) rfl
  | cons row rest ih =>
    intro kept s hs hE hQ
    rw [rebalanceLoop]
    refine (wp_ite _ _ _).2 ⟨fun _ => ih hs.tail hE hQ, fun ho => (wp_ite _ _ _).2 ⟨fun _ => ?_,
      fun _ => ih hs.tail hE hQ⟩⟩
    refine (wp_bind' _).2 ((wp_putRow _ _ _).2 ⟨by simpa using hE s (Grows.refl s),
      hs.fresh ⟨⟨rfl, rfl, rfl, rfl⟩, rfl, rfl⟩ ⟨not_not.1 ho, rfl⟩, ?_⟩)
    refine (wp_bind' _).2 (wp_scheduleClose hu _ fun s' g hst => ?_)
    have g' : Grows s s' := Grows.trans (by simp) g
    refine ih (Stored.of_store ?_ hst.1) (fun s2 g2 => hE s2 (g'.trans g2)) fun s2 g2 hm => ?_
    · exact hs.put t .rebalance rfl
    · exact hQ s2 (g'.trans g2) (hm.trans hst.2)

/-- The order of `rebalance` has the same records. -/
theorem rebalanceOrder_perm (active : Finset RowId) (rows : List Row) :
    (rebalanceOrder active rows).Perm rows := List.perm_insertionSort _ _

/-- `rebalance` stores records in order, and changes nothing of a maintenance. -/
theorem wp_rebalance (hu : pc.uuid = none) {Q : Unit → Pc → World → Prop}
    {E : Exc → Pc → World → Prop} (hE : ∀ s', Grows s s' → E .storage pc s')
    (hQ : ∀ s', Grows s s' → s'.memory.maintenance = s.memory.maintenance → Q () pc s') :
    Wp cfg t rebalance Q E pc s := by
  simp only [rebalance, wp_bind', wp_policy, wp_sessions, wp_memory, Pc.toss_read]
  refine ⟨hE s (Grows.refl s), hE s (Grows.refl s), ?_⟩
  exact wp_rebalanceLoop hu _ _ ((stored_sessions s).perm (rebalanceOrder_perm _ _)) hE hQ

/-- `rebalance` is quiet. -/
theorem quiet_rebalance (h : pc.At A) : Quiet cfg t A rebalance pc s :=
  wp_rebalance h.clean.1 (fun _ g => h.after g) fun _ g _ => h.after g

/-! ### Checks -/

/-- Cooling a provider down is quiet. -/
theorem quiet_coolProvider (h : pc.At A) (row : Row) :
    Quiet cfg t A (_coolProvider row) pc s := by
  simp [_coolProvider, Quiet, h.refl, EventOk, Pc.emit]
  exact h.after (by simp)

/-- A record whose transaction may be pending is live, so listing the live ones is enough. -/
theorem clearRows_of_sessions {excluding : Option RowId}
    (h : ∀ r ∈ s.sessions, some r.id ≠ excluding → r.state.unresolved = false) :
    ClearRows s excluding := by
  intro r hm hx
  by_contra hu
  refine hu (h r (List.mem_filter.2 ⟨hm, ?_⟩) hx)
  cases hs : r.state <;> simp_all [RowState.unresolved, RowState.terminal]

/-- After `require_clear_wallet` no other wallet transaction is pending. -/
theorem wp_requireClearWallet {excluding : Option RowId} {Q : Unit → Pc → World → Prop}
    {E : Exc → Pc → World → Prop} (hE : ∀ e, E e pc s)
    (hQ : ClearRows s excluding → ClearOperations s → Q () pc s) :
    Wp cfg t (requireClearWallet excluding) Q E pc s := by
  simp only [requireClearWallet, wp_bind', wp_sessions, wp_fetch, wp_ite, wp_raise, raise_seq,
    wp_pure, Pc.toss_read]
  refine ⟨hE _, fun _ => hE _, fun hr => ⟨hE _, fun _ => hE _, fun ho => hQ ?_ fun op hop => ?_⟩⟩
  · refine clearRows_of_sessions fun r hm hx => ?_
    by_contra hu
    exact hr (List.any_eq_true.2 ⟨r, hm, by simpa [hx] using hu⟩)
  · by_contra hu
    exact ho (List.any_eq_true.2 ⟨op, hop, by simpa using hu⟩)

/-- A number of the session is read, or the read raises. -/
@[simp] theorem wp_truthInt (truth : Json) (key : String) {Q : ℤ → Pc → World → Prop}
    {E : Exc → Pc → World → Prop} :
    Wp cfg t (truthInt truth key) Q E pc s ↔
      (∀ n, (item truth key).bind int = .ok n → Q n pc s) ∧
      ∀ e, (item truth key).bind int = .error e → E e pc s := by
  simp only [truthInt, wp_bind', wp_ofExcept]
  cases item truth key with
  | ok v => simp [Except.bind]
  | error e => simp [Except.bind]

/-- A session is validated, or the check raises. -/
@[simp] theorem wp_validateTruth (row : Row) (truth : Json) {Q : Unit → Pc → World → Prop}
    {E : Exc → Pc → World → Prop} :
    Wp cfg t (_validateTruth row truth) Q E pc s ↔
      (validTruth s.memory.identity row truth = .ok () → Q () pc s) ∧
      ∀ e, validTruth s.memory.identity row truth = .error e → E e pc s := by
  simp only [_validateTruth, wp_bind', wp_memory, wp_ofExcept]
  exact and_congr_left fun _ => ⟨fun h => h (), fun h _ => h⟩

end MorpheusGateway
