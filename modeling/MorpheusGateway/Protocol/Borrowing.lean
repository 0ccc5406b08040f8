/-
# Borrowing keeps the protocol

The functions of `Sessions.Acquire`.  A record is reserved while no restart is in
progress, or by a request that was woken in the middle of confirming another one.
What `acquire` hands out is `Lent`: stored and confirmed in the same piece.
-/

import MorpheusGateway.Protocol.Maintenance

namespace MorpheusGateway

open Contract Sessions

variable {cfg : Config} {t : ℕ} {A : Place → Prop} {pc : Pc} {s : World}

/-! ### Control points of a lease -/

/-- The control point with this lease. -/
def Pc.leased (pc : Pc) (lease : Option RowId) : Pc := { pc with lease }

/-- A lease does not move the task. -/
@[simp] theorem Pc.leased_place (pc : Pc) (l : Option RowId) : (pc.leased l).place = pc.place := rfl

/-- A task with a lease is somewhere. -/
theorem Pc.at_leased {p : Place} {l : Option RowId} : ((pc.move p).leased l).At Anywhere :=
  ⟨⟨rfl, rfl, rfl, rfl⟩, trivial⟩

/-- The lease is given back as it was taken. -/
theorem Pc.reserve_unreserve (hl : pc.lease = none) (p : Place) (id id' : RowId) :
    ((pc.emit (.reserve id)).move p).emit (.unreserve id') = pc.move p := by
  cases pc
  simp_all [Pc.emit, Pc.move]

/-- The request may reserve a record. -/
def MayReserve (pc : Pc) (s : World) : Prop :=
  pc.lease = none ∧ (s.memory.maintenance = false ∨ pc.Borrowing)

/-- In the middle of a confirmation a task may reserve another record. -/
theorem MayReserve.woken (hl : pc.lease = none) {p : Place}
    (hp : ∃ row a, p = .woken (.acquireRead row) a ∨ p = .woken (.identity (.acquire row)) a) :
    MayReserve (pc.move p) s := ⟨hl, .inr hp⟩

/-- Other parts of the state may change. -/
theorem Lent.of_eq {p : Place} {modelId : String} {row : Row} (h : Lent cfg p s modelId row)
    {s' : World} (hs : s'.store.sessions = s.store.sessions) (hv : s'.store.saved = s.store.saved)
    (hi : s'.memory.identity = s.memory.identity) (hn : s'.now = s.now) :
    Lent cfg p s' modelId row := by
  obtain ⟨r, a, hid, hc⟩ := h.confirmed
  refine ⟨?_, h.opened, r, a, hid, hc.place, ?_, hc.opened, ?_, ?_, hc.live⟩
  · rw [World.row?, hs]
    exact h.stored
  · rw [World.written, hs]
    exact hc.written
  · rw [hv]
    exact hc.resolved
  · rw [hi, hn]
    exact hc.valid

/-! ### The confirmation of a reserved record -/

/-- The errors of `int(truth[key])` are no `GatewayError`. -/
theorem truthInt_error {truth : Json} {key : String} {e : Exc}
    (h : (item truth key).bind int = .error e) : ∀ g, e ≠ .gateway g := by
  unfold item at h
  split at h
  · rename_i v _
    change int v = .error e at h
    unfold int at h
    cases hv : v.toInt with
    | ok n => rw [hv] at h; cases h
    | error i =>
      rw [hv] at h
      cases h
      cases i <;> exact fun _ h => by cases h
  · cases h
    exact fun _ h => by cases h

/-- What the `try` block of a reserved record raises: the copy that its handler
quarantines is the one that was reserved. -/
structure Refused (p : Place) (row r : Row) (e : Exc) : Prop where
  id : r.id = row.id
  place : ∃ a, p = .woken (.acquireRead row) a ∨ p = .woken (.identity (.acquire row)) a
  copy : ∀ g, e = .gateway g → endsRequest g.code = false → r = row

/-- How the `try` block of a reserved record ends. -/
theorem wp_confirm {m : ModelPolicy} {prewarm : Bool} {row : Row} {modelId : String}
    (hl : pc.lease = some row.id) (hw : row ∈ s.written) (ho : row.state = .opened)
    (hm : row.model = m.id) (hr : ∃ p ∈ s.store.saved, p.resolve modelId = some m)
    (hb : pc.begun = none) {Q : Borrowed → Pc → World → Prop} {E : Row × Exc → Pc → World → Prop}
    (hE : ∀ p s' r e, Grows s s' → Refused p row r e → E (r, e) (pc.move p) s')
    (hskip : ∀ a s', Grows s s' →
      Q .skip ((pc.move (.woken (.acquireRead row) a)).emit (.unreserve row.id)) s')
    (hsettled : ∀ a s' r, Grows s s' → r.id = row.id →
      Q (.settled r) (pc.move (.woken (.acquireRead row) a)) s')
    (huse : ∀ a s' r, Grows s s' → r.id = row.id →
      Lent cfg (.woken (.acquireRead row) a) s' modelId r →
      Q (.use r) (if prewarm then (pc.move (.woken (.acquireRead row) a)).emit (.unreserve r.id)
        else pc.move (.woken (.acquireRead row) a)) s') :
    Wp cfg t (confirm cfg m prewarm row) Q E pc s := by
  have hask : AwaitOk cfg pc s (.identity (.acquire row)) := ⟨hl, hw, ho⟩
  have hid : Quiet cfg t (fun p => ∃ a, p = .woken (.identity (.acquire row)) a)
      (verifyIdentity cfg (.acquire row)) pc s := quiet_verifyIdentity hask (fun a => ⟨a, rfl⟩) hb
  refine (wp_bind' _).2 ((wp_discard _).2 ((wp_mapError _ _).2 (wp_quiet hid
    (fun p s1 hp g1 _ => ?_) fun p s1 hp g1 e => ?_)))
  swap
  · obtain ⟨a, hp⟩ := hp
    exact hE p s1 row e g1 ⟨rfl, ⟨a, .inr hp⟩, fun _ _ _ => rfl⟩
  have hread : AwaitOk cfg (pc.move p) s1 (.acquireRead row) := ⟨hl, g1.mem hw, ho⟩
  refine (wp_bind' _).2 ((wp_suspend _).2 ⟨⟨hread, rfl⟩, fun s2 a g2 _ => ?_⟩)
  replace g2 : Grows s s2 := g1.trans g2
  rw [next_await, Pc.move_move]
  have err : ∀ {s' r e}, Grows s s' → r.id = row.id →
      (∀ g, e = .gateway g → endsRequest g.code = false → r = row) →
      E (r, e) (pc.move (.woken (.acquireRead row) a)) s' := fun g hid hc =>
    hE _ _ _ _ g ⟨hid, ⟨a, .inl rfl⟩, hc⟩
  simp only [wp_bind', wp_mapError, wp_ofExcept, readSession_eq]
  refine ⟨fun truth ht => (wp_validateTruth _ _).2 ⟨fun hv => ?_,
    fun e _ => err g2 rfl fun _ _ _ => rfl⟩, fun e _ => err g2 rfl fun _ _ _ => rfl⟩
  simp only [wp_bind', wp_mapError, wp_getRow, Pc.toss_read]
  refine ⟨err g2 rfl fun _ h => (by cases h), ?_⟩
  split
  · exact ⟨hl, hskip a _ (by simp [g2])⟩
  · rename_i latest hlat
    have hid : latest.id = row.id := Table.key_of_get hlat
    have hlease : (pc.move (.woken (.acquireRead row) a)).lease = some latest.id := hid ▸ hl
    refine (wp_ite _ _ _).2 ⟨fun _ => ⟨hl, hskip a _ (by simp [g2])⟩, fun hopen => ?_⟩
    have hopen : latest.state = .opened := not_not.1 hopen
    have plain : ∀ {key e}, (item truth key).bind int = .error e →
        E (latest, e) (pc.move (.woken (.acquireRead row) a)) s2 := fun he =>
      err g2 hid fun g hg => absurd hg (truthInt_error he g)
    have hput : ∀ r : Row, Kept latest r → (r.state = .opened ∧ s2.memory.maintenance = false ∨
        r.state = .draining ∨ r.state = .closed ∧
          (pc.move (.woken (.acquireRead row) a)).place.ReadClosed r.id) →
        RowWrite cfg (pc.move (.woken (.acquireRead row) a)) s2 r .acquired := by
      intro r hk hst
      refine .of_row? hlat hk ⟨hopen, hst, ?_, row, a, rfl, ?_⟩
      · rw [hk.1.1]
        exact hlease
      · rw [hk.1.1, hid]
    have hk : ∀ {l : ℚ} {n : ℤ} {o : Option String}, Kept latest
        { latest with lastUsed := l, endsAt := n, lastError := o } := ⟨⟨rfl, rfl, rfl, rfl⟩, rfl, rfl⟩
    simp only [wp_bind', wp_mapError, wp_truthInt, wp_now]
    refine ⟨fun closed hc => ⟨fun endsAt hends => (wp_ite _ _ _).2 ⟨fun h0 => ?_, fun h0 => (wp_ite _ _ _).2
      ⟨fun _ => ?_, fun hlong => ?_⟩⟩, fun e he => plain he⟩, fun e he => plain he⟩
    · simp only [wp_bind', wp_mapError, wp_putRow, wp_pure, Pc.toss_write]
      refine ⟨err g2 hid fun _ h => (by cases h), hput _ ⟨⟨rfl, rfl, rfl, rfl⟩, rfl, rfl⟩
        (.inr (.inr ⟨rfl, _, a, row,
        closed, rfl, rfl, hid.symm, ?_, h0⟩)), hsettled a _ _ (by simp [g2]) hid⟩
      simp [closedAt, ht, hc]
    · simp only [wp_bind', wp_mapError, wp_putRow, wp_pure, Pc.toss_write]
      exact ⟨err g2 hid fun _ h => (by cases h), hput _ ⟨⟨rfl, rfl, rfl, rfl⟩, rfl, rfl⟩ (.inr (.inl rfl)),
        hsettled a _ _ (by simp [g2]) hid⟩
    · simp only [wp_bind', wp_mapError, wp_policy, wp_memory, Pc.toss_read]
      refine ⟨err g2 hid fun _ h => (by cases h), (wp_ite _ _ _).2 ⟨fun _ => ?_, fun hadm => ?_⟩⟩
      · refine err g2 hid fun g hg hends => ?_
        cases hg
        cases hends
      · simp only [not_or, Bool.not_eq_true] at hadm
        simp only [wp_bind', wp_mapError, wp_putRow, Pc.toss_write]
        refine ⟨err g2 hid fun _ h => (by cases h), hput _ hk (.inl ⟨hopen, hadm.2.1⟩), ?_⟩
        have hlt : s2.now + cfg.requestTimeout + 15 < (endsAt : ℚ) := Rat.not_le.1 hlong
        have hlent : Lent cfg (.woken (.acquireRead row) a)
            (s2.apply t (.put .acquired { latest with
              lastUsed := s2.now, endsAt := endsAt, lastError := none })) modelId
            { latest with lastUsed := s2.now, endsAt := endsAt, lastError := none } := by
          obtain ⟨p0, hp0, hres⟩ := hr
          refine ⟨row?_put_self _ _ _ _, hopen, row, a, hid.symm, rfl, ?_, ho,
            ⟨p0, g2.saved hp0, m, hres, hm⟩, ⟨truth, endsAt, ht, hv, hends, hlt⟩, ?_⟩
          · exact List.mem_cons_of_mem _ (g2.mem hw)
          · have : closed = 0 := not_not.1 h0
            simp [closedAt, ht, hc, this]
        cases prewarm with
        | true => exact ⟨hlease, huse a _ _ (by simp [g2]) hid (hlent.of_eq rfl rfl rfl rfl)⟩
        | false => exact huse a _ _ (by simp [g2]) hid hlent

/-- The handlers give the lease back. -/
theorem wp_confirmFailed {row r : Row} {e : Exc} {p : Place} (hl : pc.lease = none)
    (h : Refused p row r e) (hw : row ∈ s.written) (ho : row.state = .opened)
    {Q : Borrowed → Pc → World → Prop} {E : Exc → Pc → World → Prop}
    (hE : ∀ e s', Grows s s' → E e (pc.move p) s')
    (hQ : ∀ s', Grows s s' → Q .skip (pc.move p) s') :
    Wp cfg t (confirmFailed (r, e)) Q E ((pc.emit (.reserve row.id)).move p) s := by
  have back : EventOk cfg ((pc.emit (.reserve row.id)).move p) s (.unreserve r.id) := by
    rw [h.id]
    rfl
  have g : Grows s (s.apply t (.unreserve r.id)) := by simp
  have plain : ∀ e', Wp cfg t (do Coro.perform (.unreserve r.id); Coro.raise e') Q E
      ((pc.emit (.reserve row.id)).move p) s := by
    intro e'
    refine ⟨back, ?_⟩
    rw [next_emit, Pc.reserve_unreserve hl]
    exact hE e' _ g
  cases e with
  | gateway g' =>
    refine (wp_bind' _).2 ((wp_perform _).2 ⟨back, ?_⟩)
    rw [next_emit, Pc.reserve_unreserve hl]
    refine (wp_ite _ _ _).2 ⟨fun _ => hE _ _ g, fun hends => ?_⟩
    have hr : r = row := h.copy g' rfl (by simpa using hends)
    subst hr
    have hwrite : RowWrite cfg (pc.move p) (s.apply t (.unreserve r.id))
        (withError { r with state := .quarantined } (.gateway g') s.now) .quarantine := by
      obtain ⟨a, ha⟩ := h.place
      exact ⟨rfl, r, a, ha, ⟨⟨rfl, rfl, rfl, rfl⟩, rfl, rfl⟩, hw, ho⟩
    refine (wp_bind' _).2 ((wp_discard _).2 (wp_markError hwrite (fun _ => rfl) (hE _ _ g) fun s' g1 => ?_))
    exact hQ s' (g.trans g1)
  | _ => exact plain _

/-- **The loop over the live records.**  A record that is not borrowed is given back. -/
theorem wp_borrow {m : ModelPolicy} {prewarm : Bool} {modelId : String} (rows : List Row)
    {Q : Option Row → Pc → World → Prop} {E : Exc → Pc → World → Prop} :
    ∀ {pc s}, pc.At Anywhere → MayReserve pc s → (∀ r ∈ rows, r ∈ s.written) →
      (∃ p ∈ s.store.saved, p.resolve modelId = some m) →
      (∀ e p s', Grows s s' → E e (pc.move p) s') →
      (∀ p s', Grows s s' → Q none (pc.move p) s') →
      (∀ p s' r, Grows s s' → Lent cfg p s' modelId r →
        Q (some r) ((pc.move p).leased (if prewarm then none else some r.id)) s') →
      Wp cfg t (borrow cfg m prewarm rows) Q E pc s := by
  induction rows with
  | nil =>
    intro pc s h _ _ _ _ hnone _
    have := hnone pc.place s (Grows.refl s)
    rwa [h.clean.move_self] at this
  | cons row rest ih =>
    intro pc s h hmay hw hr hE hnone hsome
    have next : ∀ p s', Grows s s' → MayReserve (pc.move p) s' →
        Wp cfg t (borrow cfg m prewarm rest) Q E (pc.move p) s' := by
      intro p s' g hm
      obtain ⟨p0, hp0, hres⟩ := hr
      exact ih Pc.at_anywhere hm (fun r hm => g.mem (hw r (List.mem_cons_of_mem _ hm)))
        ⟨p0, g.saved hp0, hres⟩ (fun e q s2 g2 => hE e q s2 (g.trans g2))
        (fun q s2 g2 => hnone q s2 (g.trans g2)) fun q s2 r g2 => hsome q s2 r (g.trans g2)
    refine (wp_bind' _).2 ((wp_memory _).2 ((wp_ite _ _ _).2 ⟨fun _ => ?_, fun hfree => ?_⟩))
    · have := next pc.place s (Grows.refl s)
      rw [h.clean.move_self] at this
      exact this hmay
    obtain ⟨hm, ho, hfree⟩ : row.model = m.id ∧ row.state = .opened ∧ row.id ∉ s.memory.active := by
      simpa [not_or] using hfree
    have hres : EventOk cfg pc s (.reserve row.id) := ⟨hfree, hmay.1, hmay.2⟩
    have hrow : row ∈ (s.apply t (.reserve row.id)).written := hw row List.mem_cons_self
    have g0 : Grows s (s.apply t (.reserve row.id)) := Grows.apply t hres
    refine (wp_bind' _).2 ((wp_perform _).2 ⟨hres, (wp_bind' _).2 ((wp_tryCatch _).2 ?_)⟩)
    have hb : (pc.emit (.reserve row.id)).begun = none := h.clean.2.2.2
    refine wp_confirm rfl hrow ho hm hr hb (fun p s1 r e g1 href => ?_) (fun a s1 g1 => ?_)
      (fun a s1 r g1 hid => ?_) fun a s1 r g1 hid hlent => ?_
    · refine wp_confirmFailed hmay.1 href (g1.mem hrow) ho (fun e' s2 g2 => ?_) fun s2 g2 => ?_
      · exact hE e' p s2 ((g0.trans g1).trans g2)
      · obtain ⟨a, ha⟩ := href.place
        exact next p s2 ((g0.trans g1).trans g2) (.woken hmay.1 ⟨row, a, ha⟩)
    · rw [Pc.reserve_unreserve hmay.1]
      exact next _ s1 (g0.trans g1) (.woken hmay.1 ⟨row, a, .inl rfl⟩)
    · have back : EventOk cfg ((pc.emit (.reserve row.id)).move (.woken (.acquireRead row) a)) s1
          (.unreserve r.id) := by
        rw [hid]
        rfl
      refine (wp_bind' _).2 ((wp_perform _).2 ⟨back, ?_⟩)
      rw [next_emit, Pc.reserve_unreserve hmay.1]
      have g2 : Grows s ((gateway cfg).apply t (.unreserve r.id) s1) :=
        (g0.trans g1).trans (Grows.apply t back)
      refine (wp_ite _ _ _).2 ⟨fun _ => (wp_bind' _).2 ?_, fun _ => ?_⟩
      · exact wp_scheduleClose rfl _ fun s3 g3 _ =>
          next _ s3 (g2.trans g3) (.woken hmay.1 ⟨row, a, .inl rfl⟩)
      · exact next _ _ g2 (.woken hmay.1 ⟨row, a, .inl rfl⟩)
    · have := hsome _ s1 r (g0.trans g1) hlent
      cases prewarm with
      | true =>
        rw [if_pos rfl, Pc.reserve_unreserve hmay.1]
        have hp : (pc.move (.woken (.acquireRead row) a)).leased none = pc.move (.woken (.acquireRead row) a) := by
          have hl : pc.lease = none := hmay.1
          cases pc
          cases hl
          rfl
        rwa [if_pos rfl, hp] at this
      | false =>
        rw [hid] at this
        exact this

/-! ### The wait for an opener -/

/-- Forgetting an opener that has finished is quiet. -/
theorem quiet_dropFinished (h : pc.At A) (modelId : String) (opener : ℕ) :
    Quiet cfg t A (dropFinished modelId opener) pc s := by
  refine (wp_bind' _).2 ((wp_memory _).2 ((wp_ite _ _ _).2 ⟨fun ⟨hf, ho⟩ => ?_, fun _ => h.refl s⟩))
  exact quiet_perform h ⟨opener, ho, .inl hf⟩ rfl

/-- Waiting for an opener is quiet. -/
theorem quiet_awaitOpener (h : pc.At Anywhere) (modelId : String) (opener : ℕ) :
    Quiet cfg t Anywhere (awaitOpener cfg modelId opener) pc s := by
  refine .bind (quiet_suspend trivial (fun _ => trivial) h.clean.2.2.2) fun a p s1 _ _ => ?_
  split
  · exact quiet_pure Pc.at_anywhere _
  · exact quiet_raise Pc.at_anywhere _
  · refine .bind (quiet_canWaitForHot Pc.at_anywhere _ _) fun b p s2 _ _ => ?_
    exact .ite (fun _ => quiet_raise Pc.at_anywhere _) fun _ => quiet_pure Pc.at_anywhere _
  · exact quiet_raise Pc.at_anywhere _
  · exact quiet_raise Pc.at_anywhere _

/-- The end of `chooseOpener`, which has listed the records. -/
def openerChoice (cfg : Config) (m : ModelPolicy) (deadline : ℚ) (rows : List Row) :
    Op (Option ℕ) := do
  if rows.any fun r => r.state = .openUnknown then
    Coro.raise (refuse .openUnknown
      "An opening outcome needs reconciliation before new sessions can open")
  let task := (← memory Memory.opening) m.id
  match ← openingError m.id with
  | some error =>
    if task.isNone then
      if ¬ (← canWaitForHot cfg m.id error) then
        Coro.raise (.gateway error)
    return task
  | none =>
    if task.isNone ∧ (← Coro.get).monotonic < deadline then
      if rows.length < (← policy).maxSessions ∧
          (rows.filter fun r => r.model = m.id).length < m.maxSessions then
        return some (← startOpen m.id)
    return task

/-- An opener is spawned only after both checks of `start_open`, in the same piece. -/
theorem quiet_chooseOpener (h : pc.At A) (m : ModelPolicy) (deadline : ℚ) :
    Quiet cfg t A (chooseOpener cfg m deadline) pc s := by
  have raised : ∀ {α β : Type} (e : Exc) (f : α → Op β), Quiet cfg t A (Coro.raise e >>= f) pc s :=
    fun e _ => quiet_raise h e
  refine (wp_bind' _).2 (wp_sessions.2 ⟨h.refl s, ?_⟩)
  have choose : Quiet cfg t A (openerChoice cfg m deadline s.sessions) pc s := by
    refine .ite (fun _ => raised _ _) fun _ => ?_
    refine (wp_bind' _).2 ((wp_memory _).2 ((wp_bind' _).2 (wp_openingError m.id (h.refl s)
      (fun error => ?_) fun due => ?_)))
    · refine Quiet.ite (fun _ => ?_) fun _ => quiet_pure h _
      refine .bind (quiet_canWaitForHot h _ _) fun b p s1 hp _ => ?_
      exact .when (Pc.at_move hp) (fun _ => quiet_raise (Pc.at_move hp) _) fun p s2 hp _ =>
        quiet_pure (Pc.at_move hp) _
    · refine (wp_bind' _).2 (wp_get.2 ((wp_ite _ _ _).2 ⟨fun hn => ?_, fun _ => h.refl s⟩))
      refine (wp_bind' _).2 ((wp_policy _).2 ⟨by simpa using h.refl s, (wp_ite _ _ _).2
        ⟨fun _ => ?_, fun _ => h.refl s⟩⟩)
      have free : s.memory.opening m.id = none := Option.isNone_iff_eq_none.1 hn.1
      exact Quiet.bind (quiet_startOpen h free due) fun n p s1 hp _ => quiet_pure (Pc.at_move hp) _
  refine Quiet.ite (fun _ => .ite (fun _ => raised _ _) fun _ => choose) fun _ => choose

/-! ### The loop of `acquire` -/

/-- **The loop of `acquire`** hands out a record in the piece that confirmed it, or
nothing. -/
theorem wp_acquireLoop {modelId : String} {prewarm : Bool} {deadline : ℚ} (rounds : ℕ)
    {Q : Row → Pc → World → Prop} {E : Exc → Pc → World → Prop} :
    ∀ {pc s}, pc.At Anywhere → pc.lease = none →
      (∀ e p s', Grows s s' → E e (pc.move p) s') →
      (∀ p s' r, Grows s s' → Lent cfg p s' modelId r →
        Q r ((pc.move p).leased (if prewarm then none else some r.id)) s') →
      Wp cfg t (acquireLoop cfg modelId prewarm deadline rounds) Q E pc s := by
  induction rounds with
  | zero =>
    intro pc s h _ hE _
    refine (wp_bind' _).2 ((wp_discard _).2 ((wp_suspend _).2 ⟨⟨trivial, h.clean.2.2.2⟩,
      fun s1 a g1 _ => ?_⟩))
    exact hE _ _ s1 g1
  | succ n ih =>
    intro pc s h hl hE hQ
    have stay : ∀ e s', Grows s s' → E e pc s' := by
      intro e s' g
      have := hE e pc.place s' g
      rwa [h.clean.move_self] at this
    simp only [acquireLoop, model, wp_bind', wp_memory, wp_ite, wp_raise, raise_seq, wp_policy,
      Pc.toss_read]
    refine ⟨fun _ => stay _ _ (Grows.refl s), fun hrun => ⟨stay _ _ (Grows.refl s), fun _ =>
      stay _ _ (Grows.refl s), fun _ => ⟨stay _ _ (Grows.refl s), ?_⟩⟩⟩
    split
    swap
    · exact stay _ _ (Grows.refl s)
    rename_i m hm
    refine (wp_pure m).2 ((wp_bind' _).2 (wp_rebalance h.clean.1 (fun s1 g1 => stay _ s1 g1)
      fun s1 g1 hmain => ?_))
    refine (wp_bind' _).2 (wp_sessions.2 ⟨stay _ s1 g1, ?_⟩)
    have hmay : MayReserve pc s1 := ⟨hl, .inl (by rw [hmain]; simpa using hrun)⟩
    refine (wp_bind' _).2 (wp_borrow _ h hmay (fun r hr => (mem_sessions hr).1)
      ⟨s.store.policy, g1.saved s.store.policy_saved, hm⟩ (fun e p s2 g2 => hE e p s2 (g1.trans g2))
      (fun p s2 g2 => ?_) fun p s2 r g2 => hQ p s2 r (g1.trans g2))
    replace g2 := g1.trans g2
    have again : ∀ q s', Grows s s' →
        Wp cfg t (acquireLoop cfg modelId prewarm deadline n) Q E (pc.move q) s' := fun q s' g =>
      ih Pc.at_anywhere hl (fun e q s3 g3 => hE e q s3 (g.trans g3))
        fun q s3 r g3 => hQ q s3 r (g.trans g3)
    have paused : ∀ q s', Grows s s' → Wp cfg t (do
        pause
        acquireLoop cfg modelId prewarm deadline n) Q E (pc.move q) s' := fun q s' g =>
      (wp_bind' _).2 (wp_quiet quiet_pause (fun q2 s3 _ g3 _ => again q2 s3 (g.trans g3))
        fun q2 s3 _ g3 e => hE e q2 s3 (g.trans g3))
    refine (wp_bind' _).2 (wp_quiet (quiet_chooseOpener (A := Anywhere) Pc.at_anywhere m deadline)
      (fun q s3 _ g3 o => ?_) fun q s3 _ g3 e => hE e q s3 (g2.trans g3))
    replace g3 := g2.trans g3
    split
    · rename_i opener
      have hwait : Quiet cfg t Anywhere ((awaitOpener cfg m.id opener).tryFinally
          (dropFinished m.id opener)) (pc.move q) s3 :=
        .tryFinally (quiet_awaitOpener Pc.at_anywhere _ _) fun _ _ _ _ => quiet_dropFinished Pc.at_anywhere _ _
      refine (wp_bind' _).2 (wp_quiet hwait (fun q2 s4 _ g4 _ => paused q2 s4 (g3.trans g4))
        fun q2 s4 _ g4 e => hE e q2 s4 (g3.trans g4))
    · refine (wp_bind' _).2 (wp_get.2 ((wp_ite _ _ _).2 ⟨fun _ => ?_, fun _ => paused q s3 g3⟩))
      exact hE _ q s3 g3

/-- What is lent stays lent while the waiting line is left. -/
theorem wp_acquire {modelId : String} {prewarm : Bool} {rounds : ℕ} (h : pc.At Anywhere)
    (hl : pc.lease = none) (hwait : EventOk cfg pc s .wait)
    {Q : Row → Pc → World → Prop} {E : Exc → Pc → World → Prop}
    (hE : ∀ e p s', Grows s s' → E e (pc.move p) s')
    (hleak : ∀ s', Grows s s' → E .storage { pc with waits := true, leaks := true } s')
    (hQ : ∀ p s' r, Grows s s' → Lent cfg p s' modelId r →
      Q r ((pc.move p).leased (if prewarm then none else some r.id)) s') :
    Wp cfg t (acquire cfg modelId prewarm rounds) Q E pc s := by
  have stay : ∀ e, E e pc s := by
    intro e
    have := hE e pc.place s (Grows.refl s)
    rwa [h.clean.move_self] at this
  have hw := hwait.1
  have g0 : Grows s (s.apply t .wait) := Grows.apply t hwait
  have leave : ∀ p, ((pc.emit .wait).move p).emit .unwait = pc.move p := by
    intro p
    cases pc
    simp_all [Pc.emit, Pc.move]
  have leave' : ∀ p l, (((pc.emit .wait).move p).leased l).emit .unwait = (pc.move p).leased l := by
    intro p l
    cases pc
    simp_all [Pc.emit, Pc.move, Pc.leased]
  simp only [acquire, wp_bind', wp_policy, wp_memory, wp_ite, wp_raise, raise_seq, wp_perform,
    Pc.toss_read, ok_emit, next_emit, gateway_apply]
  refine ⟨stay _, fun _ => stay _, fun _ => ⟨fun _ => stay _, fun _ => ⟨hwait, ?_, ?_⟩⟩⟩
  · have := hleak _ g0
    simpa [Pc.toss, Pc.emit] using this
  · refine wp_get.2 ((wp_tryFinally _).2 (wp_acquireLoop rounds ⟨h.clean, h.place⟩ hl
      (fun e p s1 g1 => ⟨rfl, ?_⟩) fun p s1 r g1 hlent => ⟨rfl, ?_⟩))
    · rw [next_emit, leave]
      exact hE e p _ ((g0.trans g1).trans (by simp))
    · rw [next_emit, leave']
      exact hQ p _ r ((g0.trans g1).trans (by simp)) (hlent.of_eq rfl rfl rfl rfl)

end MorpheusGateway
