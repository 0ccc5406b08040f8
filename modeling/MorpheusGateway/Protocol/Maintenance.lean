/-
# Maintenance and restarts keep the protocol

The functions of `Sessions.Maintain`.  `recover` looks at every record before its
first await that lets the other tasks start: `Left` and `Recovering` are what its two
loops keep.  A restart works on an operation record of its own, which is no withdrawal.
-/

import MorpheusGateway.Protocol.Wallet

namespace MorpheusGateway

open Contract Sessions

variable {cfg : Config} {t : ℕ} {A : Place → Prop} {pc : Pc} {s : World}

/-! ### Recovery after a start -/

/-- The stored records that only a running task resolves are in the list. -/
def Left (s : World) (rows : List Row) : Prop :=
  ∀ r ∈ s.store.sessions.rows, r.state = .opening ∨ r.state = .closing → r ∈ rows

/-- A record that is resolved, or that was just rewritten, is not left any more. -/
theorem Left.tail {row : Row} {rest : List Row} (h : Left s (row :: rest))
    (hst : row.state ≠ .opening ∧ row.state ≠ .closing) : Left s rest := by
  intro r hr hopen
  rcases List.mem_cons.1 (h r hr hopen) with rfl | hm
  · rcases hopen with ho | ho
    · exact absurd ho hst.1
    · exact absurd ho hst.2
  · exact hm

/-- Behind a record that was stored the others are left. -/
theorem Left.put {row row' : Row} {rest : List Row} (h : Left s (row :: rest)) (w : Writer)
    (hid : row'.id = row.id) (hst : row'.state ≠ .opening ∧ row'.state ≠ .closing) :
    Left (s.apply t (.put w row')) rest := by
  intro r hr hopen
  rcases Table.mem_put.1 hr with rfl | ⟨hm, hne⟩
  · rcases hopen with ho | ho
    · exact absurd ho hst.1
    · exact absurd ho hst.2
  · rcases List.mem_cons.1 (h r hm hopen) with rfl | hm
    · exact absurd hid.symm hne
    · exact hm

/-- The records in these states are live, so listing the live ones is enough. -/
theorem left_sessions (s : World) : Left s s.sessions := by
  intro r hr hopen
  refine List.mem_filter.2 ⟨hr, ?_⟩
  rcases hopen with ho | ho <;> simp [ho, RowState.terminal]

/-- `recover` stores each record that was in the middle of something, by induction on the list. -/
theorem wp_recoverRows (rows : List Row) {Q : Unit → Pc → World → Prop}
    {E : Exc → Pc → World → Prop} :
    ∀ {s}, Stored s rows → Left s rows → (∀ s', Grows s s' → E .storage pc s') →
      (∀ s', Grows s s' → RowsRecovered s' → Q () pc s') →
      Wp cfg t (recoverRows rows) Q E pc s := by
  induction rows with
  | nil =>
    intro s _ hl _ hQ
    refine hQ s (Grows.refl s) fun r hr => ⟨fun ho => ?_, fun ho => ?_⟩
    · exact absurd (hl r hr (.inl ho)) List.not_mem_nil
    · exact absurd (hl r hr (.inr ho)) List.not_mem_nil
  | cons row rest ih =>
    intro s hs hl hE hQ
    have written : ∀ row' : Row, Kept row row' →
        (row.state = .opening ∧ row'.state = .openUnknown ∨
          row.state = .closing ∧ row'.state = .closePending) →
        Wp cfg t (do putRow .recover row'; recoverRows rest) Q E pc s := by
      intro row' hk hst
      have hid : row'.id = row.id := hk.1.1
      have hst' : row'.state ≠ .opening ∧ row'.state ≠ .closing := by
        rcases hst with ⟨-, h⟩ | ⟨-, h⟩ <;> simp [h]
      refine (wp_bind' _).2 ((wp_putRow _ _ _).2 ⟨by simpa using hE s (Grows.refl s),
        hs.fresh hk hst, ?_⟩)
      refine ih (hs.put t .recover hid) (hl.put .recover hid hst') (fun s' g => ?_) fun s' g => ?_
      · exact hE s' (Grows.trans (by simp) g)
      · exact hQ s' (Grows.trans (by simp) g)
    rw [recoverRows]
    refine (wp_ite _ _ _).2 ⟨fun ho => ?_, fun ho => (wp_ite _ _ _).2 ⟨fun hc => ?_, fun hc => ?_⟩⟩
    · exact written _ ⟨⟨rfl, rfl, rfl, rfl⟩, rfl, rfl⟩ (.inl ⟨ho, rfl⟩)
    · exact written _ ⟨⟨rfl, rfl, rfl, rfl⟩, rfl, rfl⟩ (.inr ⟨hc, rfl⟩)
    · exact ih hs.tail (hl.tail ⟨ho, hc⟩) hE hQ

/-- What is left to recover, once an operation is dealt with. -/
theorem Recovering.put {op op' : Operation} {rest : List Operation}
    (h : Recovering pc s (op :: rest)) (w : OperationWriter) (hid : op'.id = op.id)
    (hop : op'.unrecovered = false) : Recovering pc (s.apply t (.putOperation w op')) rest :=
  ⟨h.1, h.2.put w hid (fun _ ho => ho) fun hu => nomatch hop.symm.trans hu⟩

/-- An operation that needs no recovery is passed over. -/
theorem Recovering.skip {op : Operation} {rest : List Operation} (h : Recovering pc s (op :: rest))
    (hop : op.unrecovered = false) : Recovering pc s rest := ⟨h.1, h.2.skip hop⟩

/-- An await carries the list of the operations that are left. -/
theorem Recovering.woken {i : Site} {a : Answer} {ops : List Operation}
    (hi : i.unrecovered = some ops) : Recovering (pc.move (.woken i a)) s ops :=
  ⟨nofun, .woken hi⟩

/-- These writers leave the control point as it was. -/
theorem Pc.emit_putOperation (hu : pc.uuid = none) {w : OperationWriter}
    (hw : w = .recover ∨ w = .restart) (op : Operation) : pc.emit (.putOperation w op) = pc := by
  cases pc
  rcases hw with rfl | rfl <;> simp_all [Pc.emit]

/-- An operation is recovered. -/
theorem wp_recoverOperation {op : Operation} {rest : List Operation} (hu : pc.uuid = none)
    (h : Recovering pc s (op :: rest)) {Q : Unit → Pc → World → Prop}
    {E : Exc → Pc → World → Prop} (hE : E .storage pc s)
    (hQ : ∀ s', Grows s s' → Recovering pc s' rest → Q () pc s') :
    Wp cfg t (recoverOperation op) Q E pc s := by
  simp only [recoverOperation, wp_ite, wp_store, wp_pure, Pc.toss_write]
  refine ⟨fun hk => ⟨hE, ⟨hk.1, rfl⟩, ?_⟩, fun hw => ⟨fun hk => ⟨hE, .inl hk.1, ?_⟩, fun _ => ?_⟩⟩
  · rw [Pc.emit_putOperation hu (.inl rfl)]
    exact hQ _ (by simp) (h.put _ rfl (by simp [Operation.unrecovered]))
  · rw [Pc.emit_putOperation hu (.inr rfl)]
    exact hQ _ (by simp) (h.put _ rfl (by simp [Operation.unrecovered, hk.1]))
  · refine hQ s (Grows.refl s) (h.skip ?_)
    simpa [Operation.unrecovered] using hw

/-- The helper is asked about an interrupted restart only. -/
theorem wp_restartCompleted {op : Operation} {rest : List Operation} (h : pc.At Anywhere)
    (hr : Recovering pc s (op :: rest)) (hop : interrupted op = true)
    {Q : Bool → Pc → World → Prop} {E : Exc → Pc → World → Prop}
    (hE : ∀ e p s', Grows s s' → Recovering (pc.move p) s' (op :: rest) → E e (pc.move p) s')
    (hQ : ∀ b p s', Grows s s' → Recovering (pc.move p) s' (if b then rest else op :: rest) →
      Q b (pc.move p) s') : Wp cfg t (restartCompleted cfg op rest) Q E pc s := by
  have hk : op.kind ≠ .withdraw := by
    rw [interrupted, Bool.and_eq_true] at hop
    simpa using hop.1
  have start : ∀ e, E e pc s := by
    intro e
    have := hE e pc.place s (Grows.refl s)
    rw [h.clean.move_self] at this
    exact this hr
  simp only [restartCompleted, wp_bind', wp_ite, wp_raise, raise_seq, wp_suspend, wp_ofExcept,
    wp_pure, wp_discard, grows_iff, next_await]
  refine ⟨fun _ => start _, fun _ => ⟨⟨hr, h.clean.2.2.2⟩, fun s1 a1 g1 _ => ⟨fun result _ => ⟨fun _ => ?_, fun _ => ?_⟩,
    fun e _ => hE e _ s1 g1 (.woken rfl)⟩⟩⟩
  · exact hQ false _ s1 g1 (.woken rfl)
  have hid : Quiet cfg t (fun p => ∃ a, p = .woken (.identity (.recoverOperation op rest)) a)
      (verifyIdentity cfg (.recoverOperation op rest)) (pc.move (.woken (.recoverHelper op rest) a1)) s1 :=
    quiet_verifyIdentity (.woken rfl) fun a => ⟨a, rfl⟩
  refine wp_quiet hid (fun p s2 hp g2 _ => ?_) fun p s2 hp g2 e => ?_
  · obtain ⟨a2, rfl⟩ := hp
    replace g2 := g1.trans g2
    simp only [wp_bind', wp_discard, wp_suspend, wp_ofExcept, wp_store, wp_pure, ok_park_move,
      grows_iff, next_await, Pc.toss_write]
    refine ⟨.woken rfl, fun s3 a3 g3 _ => ⟨fun _ _ => ⟨?_, .inl hk, ?_⟩, fun e _ => ?_⟩⟩
    · exact hE _ _ _ (g2.trans g3) (.woken rfl)
    · refine hQ true _ _ (Grows.trans (g2.trans g3) (by simp)) ?_
      have hn : Recovering (pc.move (.woken (.recoverBalances op rest) a3)) s3 (op :: rest) := .woken rfl
      exact hn.put .restart rfl (by simp [Operation.unrecovered, hk])
    · exact hE _ _ _ (g2.trans g3) (.woken rfl)
  · obtain ⟨a2, rfl⟩ := hp
    exact hE e _ s2 (g1.trans g2) (.woken rfl)

/-- The loop over the operation records leaves none to recover. -/
theorem wp_recoverOperations (ops : List Operation) {Q : Unit → Pc → World → Prop}
    {E : Exc → Pc → World → Prop} :
    ∀ {pc s}, pc.At Anywhere → Recovering pc s ops →
      (∀ e p s', Grows s s' → E e (pc.move p) s') →
      (∀ p s', Grows s s' → Recovering (pc.move p) s' [] → Q () (pc.move p) s') →
      Wp cfg t (recoverOperations cfg ops) Q E pc s := by
  induction ops with
  | nil =>
    intro pc s h hr _ hQ
    have := hQ pc.place s (Grows.refl s)
    rw [h.clean.move_self] at this
    exact this hr
  | cons op rest ih =>
    intro pc s h hr hE hQ
    have next : ∀ b p s', Grows s s' → Recovering (pc.move p) s' (if b then rest else op :: rest) →
        Wp cfg t (do
          if ¬ b = true then
            recoverOperation op
          recoverOperations cfg rest) Q E (pc.move p) s' := by
      intro b p s' g hn
      have ih' : ∀ s2, Grows s s2 → Recovering (pc.move p) s2 rest →
          Wp cfg t (recoverOperations cfg rest) Q E (pc.move p) s2 := fun s2 g2 hn' =>
        ih Pc.at_anywhere hn' (fun e q s3 g3 => hE e q s3 (g2.trans g3))
          fun q s3 g3 => hQ q s3 (g2.trans g3)
      cases b with
      | true => exact ih' s' g hn
      | false =>
        refine (wp_bind' _).2 (wp_recoverOperation rfl hn (hE _ p s' g) fun s2 g2 hn2 => ?_)
        exact ih' s2 (g.trans g2) hn2
    have skip : Wp cfg t (do
        if ¬ false = true then
          recoverOperation op
        recoverOperations cfg rest) Q E pc s := by
      have := next false pc.place s (Grows.refl s)
      rw [h.clean.move_self] at this
      exact this hr
    rw [recoverOperations]
    refine (wp_ite _ _ _).2 ⟨fun hop => (wp_bind' _).2 ((wp_tryCatch _).2 ?_), fun _ => skip⟩
    refine wp_restartCompleted h hr hop (fun e p s' g hn => ?_) fun b p s' g hn => next b p s' g hn
    cases e with
    | gateway g' => exact next false p s' g hn
    | _ => exact hE _ p s' g

/-- **`recover` looks at everything** before it asks for the node's identity. -/
theorem quiet_recover (h : pc.At Anywhere) : Quiet cfg t Anywhere (recover cfg) pc s := by
  have hint : EventOk cfg pc s .interruptAttempts := trivial
  have start : ∀ {s'}, Grows s s' → After Anywhere pc s pc s' := fun g => h.after g
  refine (wp_bind' _).2 ((wp_store _ _).2 ⟨by simpa using h.refl s, hint, ?_⟩)
  refine (wp_bind' _).2 (wp_sessions.2 ⟨start (Grows.apply t hint), ?_⟩)
  refine (wp_bind' _).2 (wp_recoverRows _ (stored_sessions _) (left_sessions _)
    (fun s1 g1 => start ((Grows.apply t hint).trans g1)) fun s1 g1 hrows => ?_)
  replace g1 := (Grows.apply t hint).trans g1
  simp only [wp_bind', wp_fetch, Pc.toss_read]
  refine ⟨start g1, wp_recoverOperations _ h ⟨fun _ => hrows, .inl fun op hop hu => ⟨op, hop, hu, rfl⟩⟩
    (fun e p s2 g2 => .move trivial (g1.trans g2)) fun p s2 g2 hn => ?_⟩
  have tried : Quiet cfg t Anywhere (do discard <| verifyIdentity cfg .recover; reconcile cfg)
      (pc.move p) s2 :=
    .bind (Quiet.discard (quiet_verifyIdentity hn fun _ => trivial)) fun _ q s3 _ _ =>
      quiet_reconcile Pc.at_anywhere
  refine (Quiet.tryCatch tried fun e q s3 _ _ => ?_).later (g1.trans g2)
  split
  · exact quiet_pure Pc.at_anywhere _
  · exact quiet_raise Pc.at_anywhere _

/-! ### The worker -/

/-- The probe of the store is quiet. -/
theorem quiet_probeWritable (h : pc.At A) : Quiet cfg t A probeWritable pc s := by
  refine .bind (quiet_storeOther h fun b => Pc.toss_write _ b) fun _ p s1 hp _ => ?_
  exact quiet_storeOther (Pc.at_move hp) fun b => Pc.toss_read _ b

/-- The loop of `tick` over the records is quiet. -/
theorem quiet_tickRows (h : pc.At A) (p : Policy) (rows : List Row) :
    ∀ {s}, Stored s rows → Quiet cfg t A (tickRows p rows) pc s := by
  induction rows with
  | nil => exact fun _ => quiet_pure h _
  | cons row rest ih =>
    intro s hs
    have schedule : ∀ row' s', Grows s s' → Stored s' rest → Wp cfg t (do
        if row'.state = .draining ∨ row'.state = .orphaned then
          scheduleClose row'
        tickRows p rest) (fun _ => After A pc s) (fun _ => After A pc s) pc s' := by
      intro row' s' g hs'
      refine (wp_ite _ _ _).2 ⟨fun _ => (wp_bind' _).2 ?_, fun _ => (ih hs').still g⟩
      refine wp_scheduleClose h.clean.1 _ fun s2 g2 hst => ?_
      exact (ih (hs'.of_store hst.1)).still (g.trans g2)
    simp only [tickRows, Quiet, wp_bind', wp_now, wp_memory]
    refine (wp_ite _ _ _).2 ⟨fun _ => (wp_ite _ _ _).2 ⟨fun ho => ?_, fun _ => ?_⟩, fun _ => ih hs.tail⟩
    · refine (wp_bind' _).2 ((wp_putRow _ _ _).2 ⟨by simpa using h.refl s,
        hs.fresh ⟨⟨rfl, rfl, rfl, rfl⟩, rfl, rfl⟩ ⟨ho.1, rfl⟩, ?_⟩)
      exact (wp_bind' _).2 (schedule _ _ (by simp) (hs.put t .tick rfl))
    · exact schedule row s (Grows.refl s) hs.tail

/-- The replacement of a session that expires is quiet. -/
theorem quiet_replaceExpiring (h : pc.At A) (modelId : String) (rows : List Row) :
    ∀ {s}, Stored s rows → Quiet cfg t A (replaceExpiring cfg modelId rows) pc s := by
  induction rows with
  | nil => exact fun _ => quiet_pure h _
  | cons row rest ih =>
    intro s hs
    simp only [replaceExpiring, Quiet, wp_bind', wp_now]
    refine (wp_ite _ _ _).2 ⟨fun ho => ?_, fun _ => ih hs.tail⟩
    refine (wp_bind' _).2 ((wp_putRow _ _ _).2 ⟨by simpa using h.refl s,
      hs.fresh ⟨⟨rfl, rfl, rfl, rfl⟩, rfl, rfl⟩ ⟨ho.2.1, rfl⟩, ?_⟩)
    refine (wp_bind' _).2 (wp_scheduleClose h.clean.1 _ fun s' g hst => ?_)
    refine (ih (Stored.of_store ?_ hst.1)).still (Grows.trans (by simp) g)
    exact hs.put t .tick rfl

/-- The loop over the models is quiet. -/
theorem quiet_maintainModels (ms : List ModelPolicy) :
    ∀ {pc s}, pc.At A → Quiet cfg t A (maintainModels cfg ms) pc s := by
  induction ms with
  | nil => exact fun h => quiet_pure h _
  | cons m rest ih =>
    intro pc s h
    refine (wp_bind' _).2 (wp_now.2 ((wp_bind' _).2 ((wp_memory _).2 ((wp_ite _ _ _).2
      ⟨fun ⟨_, _, _, hfree⟩ => ?_, fun _ => ih h⟩))))
    refine (wp_bind' _).2 (wp_openingError m.id (h.refl s) (fun g => ?_) fun due => ?_)
    · exact (wp_ite _ _ _).2 ⟨fun hn => (nomatch hn), fun _ => ih h⟩
    refine (wp_ite _ _ _).2 ⟨fun _ => ?_, fun _ => ih h⟩
    refine (wp_bind' _).2 ((wp_memory _).2 ((wp_bind' _).2 (wp_sessions.2 ⟨h.refl s, ?_⟩)))
    refine (wp_ite _ _ _).2 ⟨fun _ => (wp_bind' _).2 (wp_sessions.2 ⟨h.refl s, ?_⟩), fun _ => ?_⟩
    · exact Quiet.bind (quiet_replaceExpiring h _ _ (stored_sessions s)) fun _ p s1 hp _ =>
        ih (Pc.at_move hp)
    · have free : s.memory.opening m.id = none := by simpa using hfree
      exact Quiet.bind (quiet_startOpen h free due).discard fun _ p s1 hp _ => ih (Pc.at_move hp)

/-- One part of the code may be left out. -/
theorem Quiet.when {b : Prop} [Decidable b] {c : Op Unit} {f : Unit → Op α} (h : pc.At A)
    (hc : b → Quiet cfg t A c pc s)
    (hf : ∀ p s', A p → Grows s s' → Quiet cfg t A (f ()) (pc.move p) s') :
    Quiet cfg t A (if b then c >>= f else f ()) pc s := by
  refine .ite (fun hb => .bind (hc hb) fun _ => hf) fun _ => ?_
  have := hf pc.place s h.place (Grows.refl s)
  rwa [h.clean.move_self] at this

/-- No sweep is running when the last one has ended. -/
theorem free_sweep {m : Memory} (h : ¬sweeping m = true) : m.Free .sweep := by
  intro handle hh
  change m.sweepTask = some handle at hh
  simpa [sweeping, hh, Option.isSome_iff_ne_none] using h

/-- A task that takes the slot of the sweep is recorded in it at once. -/
theorem wp_startSweep (h : pc.At A) {w : Work} (hw : w.slot = some .sweep)
    (free : s.memory.Free .sweep) {Q : Unit → Pc → World → Prop} {E : Exc → Pc → World → Prop}
    (hQ : ∀ s', Grows s s' → Q () pc s') :
    Wp cfg t (spawn w) (fun n => Wp cfg t (Coro.perform (.sweepTask n)) Q E) E pc s := by
  obtain ⟨hu, -, -, hb⟩ := h.clean
  have back : ∀ n, ((pc.emit (.uuid n)).emit (.spawn n w)).emit (.sweepTask n) = pc ∧
      ((pc.emit (.uuid n)).emit (.spawn n w)).begun = some (n, w) := by
    intro n
    cases pc
    cases w <;> simp_all [Pc.emit, Work.slot]
  have ok : EventOk cfg (pc.emit (.uuid s.uuids)) (s.apply t (.uuid s.uuids)) (.spawn s.uuids w) := by
    cases w <;> first | exact ⟨rfl, hb, free⟩ | cases hw
  refine (wp_spawn _).2 ⟨ok, (wp_perform _).2 ⟨⟨w, (back _).2, hw⟩, ?_⟩⟩
  rw [next_emit, (back _).1]
  exact hQ _ (by simp)

/-- `tick` is quiet. -/
theorem quiet_tick (h : pc.At Anywhere) : Quiet cfg t Anywhere (tick cfg) pc s := by
  refine .bind (quiet_memory h _) fun stopped p s1 _ _ => ?_
  refine .ite (fun _ => quiet_pure Pc.at_anywhere _) fun _ => ?_
  refine .bind (quiet_memory Pc.at_anywhere _) fun broken p s2 _ _ => ?_
  refine .when Pc.at_anywhere (fun _ => quiet_probeWritable Pc.at_anywhere) fun p s3 _ _ => ?_
  have hid : Quiet cfg t Anywhere (verifyIdentity cfg .tick) (pc.move p) s3 :=
    quiet_verifyIdentity trivial fun _ => trivial
  refine .bind hid.discard fun _ p s4 _ _ => ?_
  refine .bind (quiet_suspend trivial fun _ => trivial) fun a p s5 _ _ => ?_
  refine .bind (quiet_ofExcept Pc.at_anywhere _).discard fun _ p s6 _ _ => ?_
  refine .bind (quiet_reconcile Pc.at_anywhere) fun _ p s7 _ _ => ?_
  refine .bind (quiet_rebalance Pc.at_anywhere) fun _ p s8 _ _ => ?_
  refine .bind (quiet_fetch Pc.at_anywhere _) fun pol p s9 _ _ => ?_
  refine (wp_bind' _).2 (wp_sessions.2 ⟨Pc.at_anywhere.refl s9, ?_⟩)
  refine Quiet.bind (quiet_tickRows Pc.at_anywhere pol _ (stored_sessions s9)) fun _ p s10 _ _ => ?_
  refine .when Pc.at_anywhere (fun _ => quiet_maintainModels _ Pc.at_anywhere) fun p s11 _ _ => ?_
  have finish : ∀ p s', Quiet cfg t Anywhere (do
      if ← memory Memory.storeError then
        probeWritable
        Coro.perform (.storeError false)) (pc.move p) s' := by
    intro p s'
    refine .bind (quiet_memory Pc.at_anywhere _) fun broken p s1 _ _ => ?_
    refine .ite (fun _ => ?_) fun _ => quiet_pure Pc.at_anywhere _
    refine .bind (quiet_probeWritable Pc.at_anywhere) fun _ p s2 _ _ => ?_
    exact quiet_perform Pc.at_anywhere trivial rfl
  refine (wp_bind' _).2 ((wp_memory _).2 ((wp_bind' _).2 (wp_now.2 ?_)))
  refine Quiet.ite (fun ⟨_, _, hs⟩ => ?_) fun _ => finish p s11
  have sw : Wp cfg t (spawn .sweep) (fun n => Wp cfg t (Coro.perform (.sweepTask n))
      (fun _ pc' s' => pc' = pc.move p ∧ Grows s11 s') (fun _ _ _ => False)) (fun _ _ _ => False)
      (pc.move p) s11 :=
    wp_startSweep Pc.at_anywhere rfl (free_sweep hs) fun _ g => ⟨rfl, g⟩
  refine (wp_bind' _).2 (wp_mono (fun n pc' s' hn => (wp_bind' _).2 (wp_mono (fun _ pc'' s'' hd => ?_)
    (fun _ _ _ => False.elim) _ hn)) (fun _ _ _ => False.elim) _ sw)
  obtain ⟨rfl, g⟩ := hd
  exact (finish p s'').later g

/-- The pause is quiet. -/
theorem quiet_pause (hb : pc.begun = none := by rfl) : Quiet cfg t Anywhere pause pc s := by
  refine .bind (quiet_suspend trivial (fun _ => trivial) hb) fun a p s1 _ _ => ?_
  split
  · exact quiet_pure Pc.at_anywhere _
  · exact quiet_raise Pc.at_anywhere _

/-- A turn of the loop is quiet. -/
theorem quiet_runTurn (h : pc.At Anywhere) : Quiet cfg t Anywhere (runTurn cfg) pc s := by
  have again : ∀ p s', Quiet cfg t Anywhere (do pause; discard <| spawn .tick) (pc.move p) s' := by
    intro p s'
    refine .bind (quiet_pause) fun _ p s1 _ _ => ?_
    exact (quiet_spawn Pc.at_anywhere rfl).discard
  refine .bind (quiet_tick h).attempt fun r p s1 _ _ => ?_
  split
  · exact again p s1
  · exact quiet_raise Pc.at_anywhere _
  · exact .bind (quiet_perform Pc.at_anywhere trivial rfl) fun _ p s2 _ _ => again p s2

/-- The loop with its recovery is quiet. -/
theorem quiet_run (h : pc.At Anywhere) : Quiet cfg t Anywhere (run cfg) pc s :=
  .bind (quiet_recover h) fun _ _ _ _ _ => quiet_runTurn Pc.at_anywhere

/-! ### Restarts -/

/-- The request of a restart: its operation record is stored and its task spawned.  If the
record cannot be stored, the maintenance that was begun stays on. -/
theorem wp_restart (hc : pc.claimed = false) (immediate applyRating : Bool) :
    Wp cfg t (restart cfg immediate applyRating)
      (fun _ pc' s' => (∃ u, pc' = { pc with uuid := u }) ∧ Grows s s')
      (fun _ pc' s' => (pc' = pc ∨ ∃ u, pc' = { pc with uuid := u, claimed := true, stuck := true }) ∧
        Grows s s') pc s := by
  simp only [restart, wp_bind', wp_memory, wp_ite, wp_raise, raise_seq, wp_perform, wp_uuid, wp_now,
    wp_store, wp_discard, wp_spawn, wp_pure, ok_emit, next_emit, gateway_apply]
  have refused := Grows.refl s
  refine ⟨fun _ => ⟨.inl trivial, refused⟩, fun hm => ⟨fun _ => ⟨.inl trivial, refused⟩, fun _ => ⟨?_, ⟨.inr ⟨_, rfl⟩, by simp⟩, ?_, ⟨rfl, ?_, rfl⟩,
    ⟨none, ?_⟩, by simp⟩⟩⟩
  · simpa [EventOk] using hm
  · cases applyRating
    · exact .inl fun h => by cases h
    · exact .inl fun h => by cases h
  · cases applyRating <;> intro h <;> cases h
  · cases pc
    simp_all [Pc.emit]

/-- The end of `drain`: it waits for the wallet lock if it is held, and takes it. -/
def lockDrained : Op Unit := do
  if (← memory Memory.lock).isSome then
    match ← Coro.suspend .drainedLock with
    | .done => pure ()
    | .timeout => Coro.raise .timeout
    | _ => Coro.raise .cancelled
  Coro.perform .lock

/-- **A restart waits for the leases and for the wallet lock**, and takes the lock. -/
theorem wp_drain {kind : OpKind} {immediate : Bool} (h : pc.At Anywhere) (hl : pc.lock = false)
    (hr : pc.restarting = some (kind, immediate)) (hp : pc.place = .fresh) (hs : pc.stuck = false)
    {Q : Unit → Pc → World → Prop} {E : Exc → Pc → World → Prop}
    (hE : ∀ e p s', Grows s s' → E e (pc.move p) s')
    (hQ : ∀ p s', Grows s s' → (p = .woken .drainedLock .done ∨ p.inTime = true ∧ pc.Drained s') →
      Q () ((pc.move p).emit .lock) (s'.apply t .lock)) :
    Wp cfg t (drain immediate) Q E pc s := by
  have locked : ∀ p s', Grows s s' → p.inTime = true → pc.Drained s' →
      Wp cfg t lockDrained Q E (pc.move p) s' := by
    intro p s' g ht hd
    simp only [lockDrained, wp_bind', wp_memory, wp_ite, wp_suspend, wp_perform, ok_park_move, ok_emit, grows_iff,
      next_await, next_emit, gateway_legal, gateway_apply]
    refine ⟨fun _ => ⟨⟨ht, hs, hd⟩, fun s1 a g1 hlegal => ?_⟩,
      fun hn => ⟨⟨?_, hl⟩, hQ p s' g (.inr ⟨ht, hd⟩)⟩⟩
    · have g1 : Grows s s1 := g.trans g1
      split
      · refine ⟨⟨?_, hl⟩, hQ _ s1 g1 (.inl rfl)⟩
        simpa [World.legal] using hlegal
      · exact hE _ _ s1 g1
      · exact hE _ _ s1 g1
    · simpa using hn
  unfold drain
  refine (wp_bind' _).2 ((wp_memory _).2 ((wp_ite _ _ _).2 ⟨fun _ => ?_, fun hn => ?_⟩))
  · refine (wp_bind' _).2 ((wp_suspend _).2 ⟨⟨⟨hp, hs, by rw [hr]; rfl⟩, h.clean.2.2.2⟩,
      fun s1 a g1 hlegal => ?_⟩)
    have g1 : Grows s s1 := g1
    split
    · refine locked _ s1 g1 rfl ⟨kind, immediate, hr, ?_⟩
      simpa [World.legal] using hlegal
    · exact hE _ _ s1 g1
    · exact hE _ _ s1 g1
  · have hd : pc.Drained s := by
      refine ⟨kind, immediate, hr, ?_⟩
      rw [Bool.and_eq_true, not_and_or] at hn
      exact hn.imp (by simp) (by simp)
    have := locked pc.place s (Grows.refl s) (by rw [hp]; rfl) hd
    rwa [h.clean.move_self] at this

/-- The node is restarted and checked under the wallet lock. -/
theorem locked_restartNode (op : Operation) {immediate : Bool} (h : pc.At Anywhere)
    (hl : pc.lock = true) (hr : pc.restarting = some (op.kind, immediate))
    (hd : pc.place = .woken .drainedLock .done ∨ pc.place.inTime = true ∧ pc.Drained s)
    (p : Policy) (applyRating : Bool) :
    Locked cfg t (restartNode cfg op p applyRating) pc s := by
  have hop : EventOk cfg pc s (.putOperation .restart op) := .inr ⟨immediate, hr⟩
  have start : Unlocks pc s pc s := by
    have := Unlocks.move (p := pc.place) hl (Grows.refl s)
    rwa [h.clean.move_self] at this
  refine (wp_bind' _).2 ((wp_store _ _).2 ⟨by simpa using start, hop, ?_⟩)
  rw [Pc.emit_putOperation h.clean.1 (.inr rfl)]
  have g := Grows.apply t hop
  have hask : AwaitOk cfg pc (s.apply t (.putOperation .restart op)) (.helperRestart op) :=
    ⟨hl, ⟨immediate, hr⟩, hd⟩
  refine (wp_bind' _).2 ((wp_suspend _).2 ⟨⟨hask, h.clean.2.2.2⟩, fun s1 a g1 _ => ?_⟩)
  have g1 : Grows s s1 := g.trans g1
  rw [next_await]
  refine (wp_bind' _).2 ((wp_discard _).2 ((wp_ofExcept _).2 ⟨fun _ _ => ?_, fun _ _ => .move hl g1⟩))
  have hid : Quiet cfg t Anywhere (verifyIdentity cfg .restart) (pc.move (.woken (.helperRestart op) a)) s1 :=
    quiet_verifyIdentity trivial fun _ => trivial
  refine Locked.later (Quiet.locked (A := Anywhere) ?_ ?_) g1
  · exact hl
  refine .bind hid.discard fun _ q s2 _ g2 => ?_
  refine .bind (quiet_suspend trivial fun _ => trivial) fun _ q s3 _ _ => ?_
  refine .bind (quiet_ofExcept Pc.at_anywhere _).discard fun _ q s3 _ _ => ?_
  refine .bind (quiet_reconcile Pc.at_anywhere) fun _ q s4 _ _ => ?_
  refine .ite (fun _ => ?_) fun _ => quiet_pure Pc.at_anywhere _
  refine quiet_store Pc.at_anywhere ?_ rfl
  show pc.restarting.isSome = true
  rw [hr]
  rfl

/-- What `_restart` does before its last write, with the operation record it ends with. -/
theorem wp_restartBody {op : Operation} {immediate : Bool} (h : pc.At Anywhere)
    (hl : pc.lock = false) (hr : pc.restarting = some (op.kind, immediate))
    (hp : pc.place = .fresh) (hs : pc.stuck = false) (p : Policy) (applyRating : Bool) :
    Wp cfg t (restartBody cfg op p immediate applyRating)
      (fun op' pc' s' => op'.kind = op.kind ∧ After Anywhere pc s pc' s')
      (fun e pc' s' => e.1.kind = op.kind ∧ After Anywhere pc s pc' s') pc s := by
  have hop : EventOk cfg pc s (.putOperation .restart { op with state := .draining }) :=
    .inr ⟨immediate, hr⟩
  refine (wp_bind' _).2 ((wp_mapError _ _).2 ((wp_store _ _).2 ⟨⟨rfl, by simpa using h.refl s⟩, hop, ?_⟩))
  rw [Pc.emit_putOperation h.clean.1 (.inr rfl)]
  have g := Grows.apply t hop
  refine (wp_bind' _).2 ((wp_mapError _ _).2 (wp_drain h hl hr hp hs
    (fun e q s1 g1 => ⟨rfl, .move trivial (g.trans g1)⟩) fun q s1 g1 hd => ?_))
  have g2 : Grows s (s1.apply t .lock) := (g.trans g1).trans (by simp)
  have unlock : ∀ {s3 pc'}, Unlocks ((pc.move q).emit .lock) (s1.apply t .lock) pc' s3 →
      EventOk cfg pc' s3 .unlock ∧ After Anywhere pc s (pc'.emit .unlock) (s3.apply t .unlock) := by
    rintro s3 pc' ⟨hl', ⟨q', e⟩, g3⟩
    rw [e, Pc.lock_unlock hl]
    exact ⟨hl', After.move trivial ((g2.trans g3).trans (by simp))⟩
  have body : ∀ op' : Operation, op'.kind = op.kind → Locked cfg t
      (restartNode cfg op' p applyRating) ((pc.move q).emit .lock) (s1.apply t .lock) :=
    fun op' hk => by
      have hr' : ((pc.move q).emit .lock).restarting = some (op'.kind, immediate) := by
        rw [hk]
        exact hr
      have hd' : ((pc.move q).emit .lock).place = .woken .drainedLock .done ∨
          ((pc.move q).emit .lock).place.inTime = true ∧
            ((pc.move q).emit .lock).Drained (s1.apply t .lock) := hd
      exact locked_restartNode op' Pc.at_lock rfl hr' hd' p applyRating
  refine (wp_bind' _).2 ((wp_mapError _ _).2 ((wp_tryFinally _).2 ?_))
  refine wp_mono (fun _ pc' s3 hu => ?_) (fun _ pc' s3 hu => ?_) _ (body _ ?_)
  · exact ⟨(unlock hu).1, rfl, (unlock hu).2⟩
  · exact ⟨(unlock hu).1, rfl, (unlock hu).2⟩
  · rfl

/-- Whatever came of a restart is stored under its kind. -/
theorem restartOutcome_kind {r : Except (Operation × Exc) Operation} {kind : OpKind}
    (h : match r with
      | .ok op => op.kind = kind
      | .error e => e.1.kind = kind) : (restartOutcome r).kind = kind := by
  rcases r with ⟨op, e⟩ | op
  · cases e <;> exact h
  · exact h

/-- The control point after the maintenance was lifted. -/
def Pc.lifted (pc : Pc) : Pc := { pc with restarting := none }

/-- The maintenance is lifted after a restart. -/
def liftRestart (r : Except (Operation × Exc) Operation) : Op Unit := do
  Coro.perform (.maintenance false)
  match r with
  | .error (_, .cancelled) => Coro.raise .cancelled
  | _ => return ()

/-- The `finally` of a restart. -/
def finishRestart (r : Except (Operation × Exc) Operation) : Op Unit := do
  store (.putOperation .restart (restartOutcome r)) .restart
  event
  liftRestart r

/-- **A restart ends with its own operation record** and lifts the maintenance, unless
that record cannot be stored. -/
theorem wp_restartTask {op : Operation} {immediate : Bool} (h : pc.At Anywhere)
    (hl : pc.lock = false) (hr : pc.restarting = some (op.kind, immediate))
    (hp : pc.place = .fresh) (hs : pc.stuck = false) (applyRating : Bool)
    {Q : Unit → Pc → World → Prop} {E : Exc → Pc → World → Prop}
    (hE : ∀ e p s', Grows s s' → E e ({ pc with stuck := true }.move p) s')
    (hQ : ∀ p s', Grows s s' → Q () (pc.lifted.move p) s')
    (hX : ∀ p s', Grows s s' → E .cancelled (pc.lifted.move p) s') :
    Wp cfg t (_restart cfg op immediate applyRating) Q E pc s := by
  have finish : ∀ r q s1, Grows s s1 → (restartOutcome r).kind = op.kind →
      Wp cfg t (finishRestart r) Q E (pc.move q) s1 := by
    intro r q s1 g1 hk
    have hop : EventOk cfg (pc.move q) s1 (.putOperation .restart (restartOutcome r)) :=
      .inr ⟨immediate, hk ▸ hr⟩
    have lift : ∀ q s2, Grows s s2 → Wp cfg t (liftRestart r) Q E (pc.move q) s2 := by
      intro q s2 g2
      have hoff : EventOk cfg (pc.move q) s2 (.maintenance false) := by
        show pc.restarting.isSome = true
        rw [hr]
        rfl
      refine (wp_bind' _).2 ((wp_perform _).2 ⟨hoff, ?_⟩)
      have g3 : Grows s (s2.apply t (.maintenance false)) := g2.trans (Grows.apply t hoff)
      split
      · exact hX q _ g3
      · exact hQ q _ g3
    refine (wp_bind' _).2 ((wp_store _ _).2 ⟨hE _ q s1 g1, hop, ?_⟩)
    rw [Pc.emit_putOperation rfl (.inr rfl)]
    have g2 := g1.trans (Grows.apply t hop)
    refine (wp_bind' _).2 (wp_event.2 ⟨lift q _ g2, lift q _ (g2.trans (by simp))⟩)
  refine (wp_bind' _).2 ((wp_policy _).2 ⟨?_, ?_⟩)
  · have hc : Pc.Clean { pc with stuck := true } := h.clean
    have := hE .storage pc.place s (Grows.refl s)
    rwa [hc.move_self] at this
  refine (wp_bind' _).2 ((wp_attempt _).2 ?_)
  refine wp_mono (fun op' pc' s1 hb => ?_) (fun e pc' s1 hb => ?_) _ (wp_restartBody h hl hr hp hs s.store.policy applyRating)
  · obtain ⟨hk, ⟨q, _, rfl⟩, g⟩ := hb
    exact finish (.ok op') q s1 g hk
  · obtain ⟨hk, ⟨q, _, rfl⟩, g⟩ := hb
    exact finish (.error e) q s1 g (restartOutcome_kind (r := .error e) hk)

end MorpheusGateway
