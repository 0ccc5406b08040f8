/-
# Leases, closing and binding keep the protocol

The functions of `Sessions.Close`.  What `_close` raises it raises with the copy of
the record it has then (`CloseCopy`), which its handlers store.
-/

import MorpheusGateway.Protocol.Opening

namespace MorpheusGateway

open Contract Sessions

variable {cfg : Config} {t : ℕ} {A : Place → Prop} {pc : Pc} {s : World}

/-! ### The end of a lease -/

/-- The record stored now, rewritten. -/
theorem Fresh.of_row? {id : RowId} {old row : Row} {p : Row → Prop} (h : s.row? id = some old)
    (hk : Kept old row) (hp : p old) : Fresh s row p := by
  refine ⟨old, ?_, hk, hp⟩
  rw [hk.1.1, Table.key_of_get h]
  exact h

/-- `release` gives the lease back, whether its write fails or not. -/
theorem wp_release {row : Row} (h : pc.At A) (hl : pc.lease = some row.id) :
    Wp cfg t (release row) (fun _ => After A (pc.emit (.unreserve row.id)) s)
      (fun _ => After A (pc.emit (.unreserve row.id)) s) pc s := by
  have h' : (pc.emit (.unreserve row.id)).At A := ⟨h.clean, h.place⟩
  have g : Grows s (s.apply t (.unreserve row.id)) := by simp
  simp only [release, wp_bind', wp_perform, wp_getRow, Pc.toss_read]
  refine ⟨hl, h'.after g, ?_⟩
  split
  · exact h'.after g
  · rename_i current hc
    simp only [wp_bind', wp_now, wp_putRow, wp_ite, wp_pure, Pc.toss_write]
    have g' : ∀ w row', Grows s ((s.apply t (.unreserve row.id)).apply t (.put w row')) := by simp
    refine ⟨h'.after g, .of_row? hc ⟨⟨rfl, rfl, rfl, rfl⟩, rfl, rfl⟩ rfl, fun _ => ?_, fun _ => h'.after (g' _ _)⟩
    exact (quiet_scheduleClose h' _).still (g' _ _)

/-- `invalidate` of a record that was borrowed. -/
theorem wp_invalidate {row : Row} {reason : String} {q : StoreCall} (hu : pc.uuid = none)
    (hq : q = .write ∨ q = .handler) (hr : ∃ r ∈ s.written, r.id = row.id ∧ r.state = .opened)
    {Q : Unit → Pc → World → Prop} {E : Exc → Pc → World → Prop}
    (hE : ∀ s', Grows s s' → E .storage (pc.toss q true) s')
    (hQ : ∀ s', Grows s s' → Q () pc s') :
    Wp cfg t (invalidate row reason q) Q E pc s := by
  have hread : pc.toss (if q = .handler then .handler else .read) true = pc.toss q true := by
    rcases hq with rfl | rfl <;> simp
  simp only [invalidate, _coolProvider, wp_bind', wp_getRow, hread]
  refine ⟨hE s (Grows.refl s), ?_⟩
  split
  · exact hQ s (Grows.refl s)
  · rename_i current hc
    simp only [wp_ite, wp_bind', wp_putRow, wp_policy, wp_now, wp_store, wp_event, wp_pure, hread,
      Pc.emit]
    refine ⟨fun hb => ⟨hE s (Grows.refl s), ?_, hE _ (by simp), hE _ (by simp), trivial, ?_⟩,
      fun _ => hQ s (Grows.refl s)⟩
    · refine .of_row? hc ⟨⟨rfl, rfl, rfl, rfl⟩, rfl, rfl⟩ ⟨rfl, hb.1, hb.2.1, hb.2.2, ?_⟩
      obtain ⟨r, hm, hid, ho⟩ := hr
      exact ⟨r, hm, hid.trans (Table.key_of_get hc).symm, ho⟩
    · exact ⟨wp_scheduleClose hu _ fun s' g _ => hQ s' (Grows.trans (by simp) g),
        wp_scheduleClose hu _ fun s' g _ => hQ s' (Grows.trans (by simp) g)⟩

/-! ### Closing -/

/-- `record_closed` stores what the chain says. -/
theorem wp_recordClosed {w : Writer} {row : Row} {truth : Json}
    (hw : ∀ row' n, (item truth "ClosedAt").bind int = .ok n → Kept row row' →
      row'.createdAt = row.createdAt → row'.state = .closed → RowWrite cfg pc s row' w)
    {Q : Row → Pc → World → Prop} {E : Exc → Pc → World → Prop} (hE : ∀ e, E e pc s)
    (hQ : ∀ row' s', Grows s s' → Q row' (pc.emit (.put w row')) s') :
    Wp cfg t (recordClosed w row truth) Q E pc s := by
  simp only [recordClosed, wp_bind', wp_truthInt, wp_ofExcept, wp_putRow, wp_event, wp_pure,
    Pc.toss_write]
  refine ⟨fun n hn => ⟨fun stake _ => ⟨hE _, ?_, ?_⟩, fun e _ => hE e⟩, fun e _ => hE e⟩
  · exact hw _ n hn ⟨⟨rfl, rfl, rfl, rfl⟩, rfl, rfl⟩ rfl rfl
  · exact ⟨hQ _ _ (by simp), hQ _ _ (by simp)⟩

/-- What a close POST returns does not depend on its arguments. -/
theorem request_closeSession (id : String) (o : ℕ) (a : Answer) :
    request (.closeSession id o) a = request (.closeSession "" 0) a := by
  cases a <;> rfl

/-- What the part of `_close` from its POST on knows when it raises. -/
structure Unanswered (pc : Pc) (row : Row) (e : Exc) : Prop where
  label : ∀ g, e = .gateway g → g.outcome = .notSubmitted →
    ∃ i a, pc.place = .woken i a ∧ i.label a = some .notSubmitted
  copy : ∃ r a, (pc.place = .woken (.closePost r) a ∨ pc.place = .woken (.closedRead r) a) ∧
    Kept r row

/-- The read after the close POST finds the session closed or not, or fails. -/
theorem wp_readClosed {row : Row} {chainId : String} (h : ParkOk cfg pc s (.closedRead row))
    {Q : Row × Option Json → Pc → World → Prop} {E : Row × Exc → Pc → World → Prop}
    (hE : ∀ p s' row e, Grows s s' → Unanswered (pc.move p) row e → E (row, e) (pc.move p) s')
    (hnone : ∀ p s', Grows s s' → Q (row, none) (pc.move p) s')
    (hsome : ∀ a truth n s', Grows s s' → readSession "" a = .ok truth →
      (item truth "ClosedAt").bind int = .ok n → n ≠ 0 →
      Q (row, some truth) (pc.move (.woken (.closedRead row) a)) s') :
    Wp cfg t (readClosed row chainId) Q E pc s := by
  simp only [readClosed, wp_bind', wp_suspend, wp_mapError, wp_ofExcept, grows_iff, next_await,
    readSession_eq]
  refine ⟨h, fun s1 a g1 _ => ⟨fun truth ht => ?_, fun e he => ?_⟩⟩
  · have err : ∀ {e}, (∀ g, e = .gateway g → g.outcome = .unknown) →
        E (row, e) (pc.move (.woken (.closedRead row) a)) s1 := fun hu =>
      hE _ _ _ _ g1 ⟨fun g hg hns => (by cases (hu g hg).symm.trans hns),
        row, a, .inr rfl, Kept.refl row⟩
    refine (wp_validateTruth _ _).2 ⟨fun _ => ?_, fun e he => err fun g hg =>
      unlabelled_validTruth _ _ _ g (hg ▸ he)⟩
    simp only [wp_bind', wp_mapError, wp_truthInt, wp_pure]
    refine ⟨fun n hn => ?_, fun e he => err fun g hg =>
      (unlabelled_item truth _).bind unlabelled_int g (hg ▸ he)⟩
    split
    · exact hnone _ _ g1
    · exact hsome a truth n s1 g1 ht hn ‹_›
  · refine hE _ _ _ _ g1 ⟨fun g hg hns => ⟨_, a, rfl, ?_⟩, row, a, .inr rfl, Kept.refl row⟩
    simp [Site.label, labelOf, he, hg, hns]

/-- So does the POST with its read. -/
theorem wp_closePost {row : Row} {chainId : String} {operation : ℕ}
    (h : ParkOk cfg pc s (.closePost row))
    {Q : Row × Option Json → Pc → World → Prop} {E : Row × Exc → Pc → World → Prop}
    (hE : ∀ p s' row e, Grows s s' → Unanswered (pc.move p) row e → E (row, e) (pc.move p) s')
    (hnone : ∀ row p s', Grows s s' → Q (row, none) (pc.move p) s')
    (hsome : ∀ row a truth n s', Grows s s' → row.state = .closePending →
      readSession "" a = .ok truth → (item truth "ClosedAt").bind int = .ok n → n ≠ 0 →
      Q (row, some truth) (pc.move (.woken (.closedRead row) a)) s') :
    Wp cfg t (closePost row chainId operation) Q E pc s := by
  simp only [closePost, wp_bind', wp_suspend, wp_mapError, wp_ofExcept, wp_putRow, grows_iff,
    next_await, request_closeSession, Pc.toss_write]
  refine ⟨h, fun s1 a g1 _ => ⟨fun data _ => ⟨?_, ?_, ?_⟩, fun e he => ?_⟩⟩
  · exact hE _ _ _ _ g1 ⟨fun _ h => (by cases h), row, a, .inl rfl, ⟨rfl, rfl, rfl, rfl⟩, rfl, rfl⟩
  · exact ⟨h.1.1, rfl, row, a, rfl, ⟨⟨rfl, rfl, rfl, rfl⟩, rfl, rfl⟩, rfl⟩
  · refine wp_readClosed ?_ (fun p s2 row e g hu => ?_) (fun p s2 g => ?_)
      fun a2 truth n s2 g ht hn h0 => ?_
    · exact ⟨⟨h.1.1, row?_put_self _ _ _ _, rfl, row, a, rfl, ⟨⟨rfl, rfl, rfl, rfl⟩, rfl, rfl⟩, rfl⟩, rfl⟩
    · exact hE p s2 row e (Grows.trans (by simp [g1]) g) hu
    · exact hnone _ p s2 (Grows.trans (by simp [g1]) g)
    · exact hsome _ a2 truth n s2 (Grows.trans (by simp [g1]) g) rfl ht hn h0
  · refine hE _ _ _ _ g1 ⟨fun g hg hns => ⟨_, a, rfl, ?_⟩, row, a, .inl rfl, Kept.refl row⟩
    simp [Site.label, labelOf, he, hg, hns]

/-- The handlers around the close POST store the record and raise what they caught. -/
theorem wp_closePostFailed {row : Row} {e : Exc} (hl : pc.lock = true) (hu : Unanswered pc row e)
    {Q : Row × Option Json → Pc → World → Prop} {E : Row × Exc → Pc → World → Prop}
    (hE : ∀ s' row e, Grows s s' → CloseCopy pc row → E (row, e) pc s') :
    Wp cfg t (closePostFailed (row, e)) Q E pc s := by
  have broken : Wp cfg t (do
      let row := { row with state := .closePending }
      (putRow .closeBroken row).mapError fun e => (row, e)
      Coro.raise (row, e) : OpE (Row × Exc) (Row × Option Json)) Q E pc s := by
    simp only [wp_bind', wp_mapError, wp_putRow, wp_raise, Pc.toss_write]
    have hc : CloseCopy pc { row with state := .closePending } := .inr ⟨.inl rfl, hu.copy⟩
    exact ⟨hE _ _ _ (by simp) hc, ⟨hl, rfl, hu.copy⟩, hE _ _ _ (by simp) hc⟩
  cases e with
  | gateway g =>
    have hst : (failedClose row g).state = .closePending ∨ (failedClose row g).state = .draining ∧
        ∃ i a, pc.place = .woken i a ∧ i.label a = some .notSubmitted := by
      by_cases hg : g.outcome = .notSubmitted
      · exact .inr ⟨if_pos hg, hu.label g rfl hg⟩
      · exact .inl (if_neg hg)
    have hw : RowWrite cfg pc s (withError (failedClose row g) (.gateway g) s.now) .closeFailed :=
      ⟨hl, hst, hu.copy⟩
    refine (wp_bind' _).2 ((wp_mapError _ _).2 (wp_markError hw (fun _ => rfl) ?_ fun s1 g1 => ?_))
    · exact hE _ _ _ (Grows.refl s) (.inr ⟨hst, hu.copy⟩)
    · exact hE _ _ _ g1 (.inr ⟨hst, hu.copy⟩)
  | _ => exact broken

/-- Storing the excepted record keeps the others clear. -/
theorem ClearRows.put {id : RowId} (h : ClearRows s (some id)) (w : Writer) {row : Row}
    (hid : row.id = id) : ClearRows (s.apply t (.put w row)) (some id) := by
  intro r hr hne
  rcases Table.mem_put.1 hr with rfl | ⟨hr, -⟩
  · exact absurd (congrArg some hid) hne
  · exact h r hr hne

/-- `_close` from its first chain read on.  Its own store failure may leave a fresh ID
behind. -/
theorem wp_closeVerified {row : Row} {chainId : String} (h : ParkOk cfg pc s (.closeRead row))
    {Q : Row → Pc → World → Prop} {E : Row × Exc → Pc → World → Prop}
    (hE : ∀ p s' row e, Grows s s' → CloseCopy (pc.move p) row → E (row, e) (pc.move p) s')
    (hstore : ∀ row pc' s', Unlocks pc s pc' s' → E (row, .storage) pc' s')
    (hQ : ∀ row p s', Grows s s' → Q row (pc.move p) s') :
    Wp cfg t (closeVerified row chainId) Q E pc s := by
  have hl : pc.lock = true := h.1.1
  simp only [closeVerified, wp_bind', wp_suspend, wp_mapError, wp_ofExcept, grows_iff, next_await,
    readSession_eq]
  refine ⟨h, fun s1 a g1 _ => ⟨fun truth ht => ?_, fun e he => ?_⟩⟩
  · have copy : CloseCopy (pc.move (.woken (.closeRead row) a)) row :=
      .inl ⟨row, a, rfl, Kept.refl row, rfl⟩
    have err : ∀ {e}, E (row, e) (pc.move (.woken (.closeRead row) a)) s1 := hE _ _ _ _ g1 copy
    refine (wp_validateTruth _ _).2 ⟨fun _ => ?_, fun e _ => err⟩
    simp only [wp_bind', wp_mapError, wp_truthInt]
    refine ⟨fun n hn => (wp_ite _ _ _).2 ⟨fun h0 => ?_, fun h0 => ?_⟩, fun e _ => err⟩
    · refine (wp_mapError _ _).2 (wp_recordClosed (fun row' m hm hk _ hc => ?_)
        (fun e => err) fun row' s2 g2 => hQ _ _ _ (g1.trans g2))
      refine ⟨hl, hc, ⟨_, a, row, n, rfl, rfl, hk.1.1.symm, ?_, h0⟩, row, a, rfl, hk, rfl⟩
      simp [closedAt, ht, hn]
    · refine (wp_bind' _).2 ((wp_mapError _ _).2 (wp_requireClearWallet (fun _ => err) fun hr ho => ?_))
      simp only [wp_bind', wp_mapError, wp_uuid, wp_putRow, Pc.toss_write]
      refine ⟨hstore _ _ _ ⟨hl, ⟨_, rfl⟩, by simp [g1]⟩, ?_, ?_⟩
      · exact ⟨hl, rfl, ⟨row, a, rfl, ⟨rfl, rfl, rfl, rfl⟩, rfl, rfl⟩, ⟨_, rfl, rfl⟩, hr, ho⟩
      · set row1 : Row := { row with state := .closing, closeOperationId := some s1.uuids }
        set s2 := (s1.apply t (.uuid s1.uuids)).apply t (.put (.closeIntent row.state) row1)
        have g2 : Grows s s2 := by simp [s2, g1]
        have hr' : ClearRows s2 (some row1.id) :=
          ClearRows.put (s := s1.apply t (.uuid s1.uuids)) hr _ rfl
        have hpost : AwaitOk cfg (pc.move (.woken (.closeRead row) a)) s2 (.closePost row1) :=
          ⟨hl, row?_put_self _ _ _ _, rfl, ⟨_, rfl⟩, hr', ho, row, a, rfl,
            ⟨rfl, rfl, rfl, rfl⟩, rfl⟩
        refine (wp_tryCatch _).2 (wp_closePost ⟨hpost, rfl⟩ (fun p s3 row3 e g3 hu => ?_) (fun row3 p s3 g3 => ?_)
          fun row3 b truth3 m s3 g3 hst ht3 hm h0m => ?_)
        · have hl' : (pc.move p).lock = true := hl
          refine wp_closePostFailed hl' hu fun s4 row4 e g4 hc => ?_
          exact hE _ _ _ _ ((g2.trans g3).trans g4) hc
        · exact hQ _ _ _ (g2.trans g3)
        · have copy : CloseCopy (pc.move (.woken (.closedRead row3) b)) row3 :=
            .inr ⟨.inl hst, row3, b, .inr rfl, Kept.refl row3⟩
          refine (wp_mapError _ _).2 (wp_recordClosed (fun row' k hk hkept _ hc => ?_) (fun e => hE _ _ _ _ (g2.trans g3) copy) fun row' s4 g4 => hQ _ _ _ ((g2.trans g3).trans g4))
          refine ⟨hl, hc, ⟨_, b, row3, m, rfl, rfl, hkept.1.1.symm, ?_, h0m⟩, row3, b, rfl, hkept⟩
          simp [closedAt, ht3, hm]
  · exact hE _ _ _ _ g1 (.inl ⟨row, a, rfl, Kept.refl row, rfl⟩)

/-- The handlers of a close that failed are quiet. -/
theorem quiet_closeFailed (h : pc.At A) (hl : pc.lock = true) {row : Row} {e : Exc}
    (hc : CloseCopy pc row) : Quiet cfg t A (closeFailed (row, e)) pc s := by
  cases e with
  | gateway g =>
    have hw : RowWrite cfg pc s (withError row (.gateway g) s.now) .closeError := ⟨hl, hc⟩
    exact .bind (quiet_markError h hw fun _ => rfl).discard fun _ _ _ hp _ =>
      quiet_raise (Pc.at_move hp) _
  | _ => exact quiet_raise h _

/-- `_close` runs under the lock. -/
theorem locked_close (h : pc.At Anywhere) (hl : pc.lock = true) {row : Row}
    (hrow : s.row? row.id = some row) : Locked cfg t (_close row) pc s := by
  have done : ∀ {s'}, Grows s s' → Unlocks pc s pc s' := fun g => h.clean.move_self ▸ .move hl g
  have live : ¬(row.state = .closed ∨ row.state = .failed) → row.state.terminal = false := by
    intro hn
    cases hst : row.state <;> simp_all [RowState.terminal]
  simp only [Locked, _close, wp_ite, wp_pure, wp_bind', wp_memory, wp_putRow, Pc.toss_write]
  refine ⟨fun _ => done (Grows.refl s), fun h1 => ⟨fun _ => done (Grows.refl s), fun h2 =>
    ⟨fun _ => ⟨done (Grows.refl s), ?_, done (by simp)⟩, fun ha => ?_⟩⟩⟩
  · exact .of_row? hrow ⟨⟨rfl, rfl, rfl, rfl⟩, rfl, rfl⟩ ⟨rfl, live h1, (not_or.1 h2).1, (not_or.1 h2).2⟩
  · cases hid : row.chainId with
    | none => exact done (Grows.refl s)
    | some chainId =>
      have hread : ParkOk cfg pc s (.closeRead row) :=
        ⟨⟨hl, hrow, ha, by rw [hid]; rfl, live h1, (not_or.1 h2).1, (not_or.1 h2).2⟩, h.clean.2.2.2⟩
      refine (wp_tryCatch _).2 (wp_closeVerified hread (fun p s1 row1 e g1 hc => ?_)
        (fun row1 pc1 s1 hu => hu) fun row1 p s1 g1 => .move hl g1)
      have hc' : Locked cfg t (closeFailed (row1, e)) (pc.move p) s1 :=
        (quiet_closeFailed Pc.at_anywhere hl hc).locked hl
      exact hc'.later g1

/-- So does what reads its record first. -/
theorem locked_closeLocked (h : pc.At Anywhere) (hl : pc.lock = true) (id : RowId) :
    Locked cfg t (closeLocked cfg id) pc s := by
  have done : ∀ {p s'}, Grows s s' → Unlocks pc s (pc.move p) s' := fun g => .move hl g
  have hid : Quiet cfg t Anywhere (verifyIdentity cfg .close) pc s :=
    quiet_verifyIdentity trivial (fun _ => trivial) h.clean.2.2.2
  simp only [Locked, closeLocked, wp_bind', wp_memory, wp_ite, wp_raise, raise_seq, wp_attempt]
  refine ⟨fun _ => h.clean.move_self ▸ done (Grows.refl s), fun _ => ?_⟩
  refine wp_quiet hid (fun p s1 _ g1 i => ?_) fun p s1 _ g1 e => ?_
  · simp only [wp_bind', wp_getRow, Pc.toss_read]
    refine ⟨done g1, ?_⟩
    split
    · exact done g1
    · rename_i row hrow
      have hrow' : s1.row? row.id = some row := by rwa [Table.key_of_get hrow]
      exact (locked_close Pc.at_anywhere hl hrow').later g1
  · cases e with
    | gateway g =>
      simp only [wp_bind', wp_getRow, Pc.toss_read]
      refine ⟨done g1, ?_⟩
      split
      · exact done g1
      · rename_i row hrow
        simp only [wp_bind', wp_discard]
        refine wp_markError ?_ (fun _ => rfl) (done g1) fun s2 g2 => done (g1.trans g2)
        exact .of_row? hrow ⟨⟨rfl, rfl, rfl, rfl⟩, rfl, rfl⟩ rfl
    | _ => exact done g1

/-- `close`, after the record of the session is read and marked. -/
def closeMarked (cfg : Config) (id : RowId) (stopMaintaining : Bool) : Op Row := do
  if stopMaintaining then
    let row ← getRow id
    let p ← policy
    match row.bind fun r => p.resolve r.model with
    | some m => store (.policy (p.stopMaintaining m.id).bump)
    | none => pure ()
  withLock (closeLocked cfg id)

/-- A close with its lock is quiet. -/
theorem quiet_close (h : pc.At Anywhere) (hl : pc.lock = false) (id : RowId)
    (stopMaintaining : Bool) : Quiet cfg t Anywhere (close cfg id stopMaintaining) pc s := by
  have locked : ∀ s', Grows s s' → Wp cfg t (withLock (closeLocked cfg id))
      (fun _ => After Anywhere pc s) (fun _ => After Anywhere pc s) pc s' := fun s' g =>
    (quiet_withLock h hl fun _ _ _ => locked_closeLocked Pc.at_lock rfl id).still g
  have rest : ∀ s', Grows s s' → Wp cfg t (closeMarked cfg id stopMaintaining)
      (fun _ => After Anywhere pc s) (fun _ => After Anywhere pc s) pc s' := by
    intro s' g
    simp only [closeMarked, wp_ite, wp_bind', wp_getRow, wp_policy, Pc.toss_read]
    refine ⟨fun _ => ⟨h.after g, h.after g, ?_⟩, fun _ => locked s' g⟩
    split
    · rename_i m _
      have hp : EventOk cfg pc s' (.policy (s'.store.policy.stopMaintaining m.id).bump) := by
        simp [EventOk]
      simp only [wp_bind', wp_store, Pc.toss_write]
      exact ⟨h.after g, hp, locked _ (g.trans (Grows.apply t hp))⟩
    · exact locked s' g
  refine (wp_bind' _).2 ((wp_getRow _ _).2 ⟨by simpa using h.refl s, ?_⟩)
  split
  · exact h.refl s
  · rename_i row hrow
    refine (wp_ite _ _ _).2 ⟨fun hst => ?_, fun _ => rest s (Grows.refl s)⟩
    refine (wp_bind' _).2 ((wp_putRow _ _ _).2 ⟨by simpa using h.refl s, ?_, rest _ (by simp)⟩)
    exact .of_row? hrow ⟨⟨rfl, rfl, rfl, rfl⟩, rfl, rfl⟩ ⟨rfl, hst⟩

/-! ### Binding -/

/-- The read of `bind` and its write are quiet. -/
theorem quiet_bindVerified {row : Row} {chainId : String} (h : ParkOk cfg pc s (.bindRead row)) :
    Quiet cfg t Anywhere (bindVerified cfg row chainId) pc s := by
  refine (wp_bind' _).2 ((wp_suspend _).2 ⟨h, fun s1 a g1 _ => ?_⟩)
  have g1 : Grows s s1 := g1
  have done : ∀ {s'}, Grows s s' → After Anywhere pc s (pc.move (.woken (.bindRead row) a)) s' :=
    fun g => .move trivial g
  simp only [wp_bind', wp_ofExcept, readSession_eq, next_await]
  refine ⟨fun truth ht => ?_, fun e _ => done g1⟩
  refine (wp_validateTruth _ _).2 ⟨fun hv => ?_, fun _ _ => done g1⟩
  simp only [wp_bind', wp_truthInt, wp_ite, wp_raise, raise_seq, wp_ofExcept]
  refine ⟨fun openedAt ho => ⟨fun _ => done g1, fun hin => ?_⟩, fun _ _ => done g1⟩
  refine ⟨fun endsAt _ => ⟨fun stake _ => ⟨fun n hn => ⟨fun h0 => ?_, fun h0 => ?_⟩, ?_⟩, ?_⟩, ?_⟩
  · refine wp_recordClosed (fun row' m _ hk hat hc => ?_)
      (fun _ => done g1) fun row' s2 g2 => ?_
    · refine ⟨.inr ⟨hc, _, a, row, n, rfl, rfl, hk.1.1.symm, ?_, h0⟩, row, a, truth, openedAt, rfl, hk, hat,
        ht, hv, ho, not_not.1 hin⟩
      simp [closedAt, ht, hn]
    · simp only [wp_bind', wp_event, wp_pure]
      exact ⟨.move trivial (g1.trans g2), .move trivial (by simp [g1.trans g2])⟩
  · simp only [wp_bind', wp_putRow, wp_event, wp_pure, Pc.toss_write]
    refine ⟨done g1, ⟨.inl rfl, row, a, truth, openedAt, rfl, ⟨⟨rfl, rfl, rfl, rfl⟩, rfl, rfl⟩, rfl, ht, hv, ho,
      not_not.1 hin⟩, ?_⟩
    exact ⟨.move trivial (by simp [g1]), .move trivial (by simp [g1])⟩
  all_goals exact fun _ _ => done g1

/-- `bind` is quiet. -/
theorem quiet_bind (h : pc.At Anywhere) (id : RowId) (chainId : String) :
    Quiet cfg t Anywhere (bind cfg id chainId) pc s := by
  refine .ite (fun _ => quiet_raise h _) fun _ => ?_
  have hid : Quiet cfg t Anywhere (verifyIdentity cfg .bind) pc s :=
    quiet_verifyIdentity trivial (fun _ => trivial) h.clean.2.2.2
  refine .bind hid.discard fun _ p s1 _ _ => ?_
  simp only [Quiet, wp_bind', wp_getRow, Pc.toss_read]
  refine ⟨Pc.at_anywhere.refl s1, ?_⟩
  split
  · exact Pc.at_anywhere.refl s1
  · rename_i row hrow
    simp only [wp_ite, wp_raise, raise_seq, wp_bind', wp_sessions]
    refine ⟨fun _ => Pc.at_anywhere.refl s1, fun hst => ⟨Pc.at_anywhere.refl s1,
      fun _ => Pc.at_anywhere.refl s1, fun hfree => ?_⟩⟩
    have hid : row.id = id := Table.key_of_get hrow
    refine quiet_bindVerified ⟨⟨not_not.1 hst, row, ?_, ⟨rfl, rfl, rfl, rfl⟩, rfl, not_not.1 hst,
      rfl, fun q hq hne hc => hfree ?_⟩, rfl⟩
    · show s1.row? row.id = some row
      rwa [hid]
    · have hne : q.id ≠ row.id := hne
      rw [List.any_eq_true]
      exact ⟨q, hq, by simp [← hid, hne, hc]⟩

end MorpheusGateway
