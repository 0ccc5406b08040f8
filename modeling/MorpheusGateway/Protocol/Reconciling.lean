/-
# Reconciliation keeps the protocol

The functions of `Sessions.Reconcile`.  A verdict `failed` of `transaction_state`
comes with the receipts of all the judged transactions (`wp_transactionState`); the
three passes store a record only as they find it, or carry it over the awaits of a
verdict.
-/

import MorpheusGateway.Protocol.Closing

namespace MorpheusGateway

open Contract Sessions

variable {cfg : Config} {t : ℕ} {A : Place → Prop} {pc : Pc} {s : World}

/-! ### Verdicts -/

/-- The receipts `seen` are the answers of the awaits before, and `txs` is still to judge. -/
structure Pending (pc : Pc) (j : Judged) (seen : List (String × Option Json)) (txs : List Json) :
    Prop where
  hashes : j.hashes = seen.map Prod.fst ++ txs.map fun tx => (transactionHash tx).toStr
  seen : seen = [] ∧ txs ≠ [] ∨ ∃ seen' tx a, pc.place = .woken (.receipt j seen' tx) a ∧
    receiptsAfter seen' tx a = some seen

/-- The first transaction that is pending is the one to judge. -/
theorem Pending.judging {j : Judged} {seen : List (String × Option Json)} {tx : Json}
    {rest : List Json} (h : Pending pc j seen (tx :: rest)) :
    Judging pc j seen (transactionHash tx).toStr :=
  ⟨⟨_, h.hashes⟩, h.seen.imp And.left id⟩

/-- An await about a withdrawal says which are unresolved, and one about an opening which
are listed. -/
theorem Settling.woken {j : Judged} {i : Site} {a : Answer} {s' : World} (h : Settling pc s j)
    (hi : ∀ op rest, j = .withdrawal op rest → i.unsettled = some (op :: rest))
    (ho : ∀ row rest, j = .opening row rest → i.listed = row :: rest) :
    Settling (pc.move (.woken i a)) s' j := by
  cases j with
  | withdrawal op rest => exact ⟨h.1, .inr ⟨i, a, _, rfl, hi op rest rfl, fun _ _ _ hc => hc⟩⟩
  | opening row rest =>
    refine .inr ?_
    show row :: rest <:+ i.listed
    rw [ho row rest rfl]
  | closing row truth => trivial

/-- The loop over the transactions, by induction on those that are left. -/
theorem wp_judge {j : Judged} (txs : List Json) {Q : TransactionState → Pc → World → Prop}
    {E : Exc → Pc → World → Prop} :
    ∀ {pc s seen}, Pending pc j seen txs → Settling pc s j → pc.At Anywhere →
      (∀ e p s', Grows s s' → Settling (pc.move p) s' j → E e (pc.move p) s') →
      (∀ v p s', Grows s s' → Settling (pc.move p) s' j →
        (v ≠ .unknown → ∃ seen tx a, p = .woken (.receipt j seen tx) a) →
        (v = .failed → p.Reverted j) → Q v (pc.move p) s') →
      Wp cfg t (judge cfg j seen txs) Q E pc s := by
  induction txs with
  | nil =>
    intro pc s seen hp hs h hE hQ
    rw [← h.clean.move_self] at hs ⊢
    rcases hp.seen with ⟨-, hne⟩ | ⟨seen', tx, a, hpc, hr⟩
    · exact absurd rfl hne
    · refine (wp_ofExcept _).2 ⟨fun v hv => hQ v _ s (Grows.refl s) hs (fun _ => ⟨seen', tx, a, hpc⟩)
        fun hf => ?_, fun e _ => hE e _ s (Grows.refl s) hs⟩
      exact ⟨seen', tx, a, seen, hpc, hr, hf ▸ hv, by simp [hp.hashes]⟩
  | cons tx rest ih =>
    intro pc s seen hp hs h hE hQ
    have err : ∀ {e}, E e pc s := by
      intro e
      have := hE e pc.place s (Grows.refl s)
      rw [h.clean.move_self] at this
      exact this hs
    simp only [judge, wp_ite, wp_pure, wp_bind', wp_memory]
    refine ⟨fun _ => ?_, fun _ => ?_⟩
    · rw [← h.clean.move_self] at hs ⊢
      exact hQ _ _ s (Grows.refl s) hs (absurd rfl) fun hf => by cases hf
    · split
      · exact err
      · have asked : ∀ a s', Settling (pc.move (.woken (.rpcChain j seen (transactionHash tx).toStr) a)) s' j :=
          fun a s' => hs.woken (by rintro op rest rfl; rfl) (by rintro row rest rfl; rfl)
        have answered : ∀ a s', Settling (pc.move (.woken (.receipt j seen (transactionHash tx).toStr) a)) s' j :=
          fun a s' => hs.woken (by rintro op rest rfl; rfl) (by rintro row rest rfl; rfl)
        simp only [receipt, wp_bind', wp_ite, wp_raise, raise_seq, wp_suspend, wp_ofExcept,
          ok_park_move, grows_iff, next_await]
        refine ⟨fun _ => err, fun _ => ⟨⟨⟨hp.judging, hs⟩, h.clean.2.2.2⟩, fun s1 a1 g1 _ =>
          ⟨fun _ _ => ⟨⟨⟨a1, rfl⟩, asked _ _⟩, fun s2 a2 g2 _ =>
            ⟨fun r hr => ?_, fun e _ => hE e _ _ (g1.trans g2) (answered _ _)⟩⟩,
            fun e _ => hE e _ _ g1 (asked _ _)⟩⟩⟩
        refine ih ⟨?_, .inr ⟨seen, _, a2, rfl, ?_⟩⟩ (answered _ _) Pc.at_anywhere
          (fun e p s' g => hE e p s' ((g1.trans g2).trans g))
          fun v p s' g => hQ v p s' ((g1.trans g2).trans g)
        · simp [hp.hashes]
        · simp [receiptsAfter, hr]

/-- Iterating over what is true as a condition yields something. -/
theorem iterate_ne_nil {x : Json} {xs : List Json} (hx : x.truth = true)
    (h : iterate x = .ok xs) : xs ≠ [] := by
  rintro rfl
  cases x <;> simp_all [iterate, Json.truth]

/-- The verdict on the transactions of `j`. -/
theorem wp_transactionState {j : Judged} {transactions : Json}
    (hj : ∀ xs, iterate transactions = .ok xs → j.transactions = .ok xs)
    (hs : Settling pc s j) (h : pc.At Anywhere) {Q : TransactionState → Pc → World → Prop}
    {E : Exc → Pc → World → Prop}
    (hE : ∀ e p s', Grows s s' → Settling (pc.move p) s' j → E e (pc.move p) s')
    (hQ : ∀ v p s', Grows s s' → Settling (pc.move p) s' j →
      (v ≠ .unknown → ∃ seen tx a, p = .woken (.receipt j seen tx) a) →
      (v = .failed → p.Reverted j) → Q v (pc.move p) s') :
    Wp cfg t (transactionState cfg j transactions) Q E pc s := by
  simp only [transactionState, wp_ite, wp_pure, wp_bind', wp_ofExcept]
  refine ⟨fun _ => ?_, fun ht => ⟨fun xs hxs => ?_, fun e _ => ?_⟩⟩
  · rw [← h.clean.move_self] at hs ⊢
    exact hQ _ _ s (Grows.refl s) hs (absurd rfl) fun hf => by cases hf
  · refine wp_judge xs ⟨?_, .inl ⟨rfl, iterate_ne_nil (not_not.1 ht) hxs⟩⟩ hs h hE hQ
    simp [Judged.hashes, hj xs hxs]
  · rw [← h.clean.move_self] at hs ⊢
    exact hE _ _ s (Grows.refl s) hs

/-! ### The journal -/

/-- The journal answers, or is of no help. -/
theorem wp_journal {i : Site} (h : ParkOk cfg pc s i) {Q : Option Json → Pc → World → Prop}
    {E : Exc → Pc → World → Prop} (hE : ∀ e p s', Grows s s' → E e (pc.move p) s')
    (hnone : ∀ a s', Grows s s' → Q none (pc.move (.woken i a)) s')
    (hsome : ∀ a progress s', Grows s s' → helperRequest a = .ok progress →
      Q (some progress) (pc.move (.woken i a)) s') :
    Wp cfg t (journal i) Q E pc s := by
  refine (wp_bind' _).2 ((wp_suspend _).2 ⟨h, fun s1 a g1 _ => ?_⟩)
  split
  · exact hsome a _ s1 g1 ‹_›
  · exact hnone a s1 g1
  · exact hE _ _ s1 g1

/-- The journal changes neither the session of a record nor the operation it belongs to. -/
theorem journaled_same (row : Row) (progress : Json) (time : ℚ) :
    SameSession row (journaled row progress time) ∧
      (journaled row progress time).closeOperationId = row.closeOperationId := by
  unfold journaled
  cases sessionId? progress <;> split_ifs <;> exact ⟨⟨rfl, rfl, rfl, rfl⟩, rfl⟩

/-- The rest of `journalPass`, after the journal answered for `row`. -/
def journalAnswered (cfg : Config) (row : Row) (rest : List Row) (progress : Option Json) :
    Op Unit := do
  if (← getRow row.id) = some row then
    match progress.filter Json.truth with
    | none => pure ()
    | some progress => putRow (.journalPass row) (journaled row progress (← now))
  journalPass cfg rest

/-- The first pass is quiet. -/
theorem quiet_journalPass (rows : List Row) :
    ∀ {pc s}, pc.At Anywhere → (∀ r ∈ rows, r ∈ s.written) →
      Quiet cfg t Anywhere (journalPass cfg rows) pc s := by
  induction rows with
  | nil => exact fun h _ => quiet_pure h _
  | cons row rest ih =>
    intro pc s h hw
    have next : ∀ p s', Grows s s' → Wp cfg t (journalPass cfg rest) (fun _ => After Anywhere pc s)
        (fun _ => After Anywhere pc s) (pc.move p) s' := fun p s' g =>
      (ih Pc.at_anywhere fun r hr => g.mem (hw r (List.mem_cons_of_mem _ hr))).later g
    refine (wp_ite _ _ _).2 ⟨fun hst => ?_, fun _ => h.clean.move_self ▸ next pc.place s (Grows.refl s)⟩
    have stored : ∀ progress p s', Grows s s' → (∀ data, progress = some data →
        ∃ a, p = .woken (.rowJournal row) a ∧ helperRequest a = .ok data) →
        Wp cfg t (journalAnswered cfg row rest progress)
          (fun _ => After Anywhere pc s) (fun _ => After Anywhere pc s) (pc.move p) s' := by
      intro progress p s' g hp
      simp only [journalAnswered, wp_bind', wp_getRow, wp_ite, Pc.toss_read]
      refine ⟨.move trivial g, fun hrow => ?_, fun _ => next p s' g⟩
      split
      · exact next p s' g
      · rename_i data hd
        obtain ⟨a, rfl, ha⟩ := hp data (Option.filter_eq_some_iff.1 hd).1
        simp only [wp_bind', wp_now, wp_putRow, Pc.toss_write]
        refine ⟨.move trivial g, ⟨?_, a, data, s'.now, rfl, ha, rfl, hst⟩, next _ _ (by simp [g])⟩
        rwa [(journaled_same row data s'.now).1.1]
    refine (wp_ite _ _ _).2 ⟨fun _ => (wp_bind' _).2 ?_, fun _ => ?_⟩
    · have hask : AwaitOk cfg pc s (.rowJournal row) := ⟨hw row List.mem_cons_self, hst⟩
      refine wp_journal ⟨hask, h.clean.2.2.2⟩ (fun e p s' g => .move trivial g)
        (fun a s' g => stored none _ s' g fun _ h => by cases h) fun a data s' g ha => stored _ _ s' g fun d hd => ?_
      obtain rfl := Option.some.inj hd
      exact ⟨a, rfl, ha⟩
    · exact h.clean.move_self ▸ stored none pc.place s (Grows.refl s) fun _ h => by cases h

/-! ### The chain -/

/-- The record is stored only over the snapshot it was made from. -/
theorem quiet_storeTruth {snapshot row : Row} {truth : Json} (h : pc.At A)
    (hw : s.row? row.id = some snapshot → ∀ row', Kept row row' → row'.state = row.state →
      RowWrite cfg pc s row' (.truthPass snapshot)) : Quiet cfg t A (storeTruth snapshot row truth) pc s := by
  simp only [Quiet, storeTruth, wp_bind', wp_getRow, wp_ite, wp_pure, wp_truthInt, wp_ofExcept,
    wp_putRow, Pc.toss_read, Pc.toss_write]
  refine ⟨h.refl s, fun _ => h.refl s, fun hrow => ⟨fun endsAt _ => ⟨fun stake _ =>
    ⟨h.refl s, ?_, h.after (by simp)⟩, fun _ _ => h.refl s⟩, fun _ _ => h.refl s⟩⟩
  exact hw (not_not.1 hrow) _ ⟨⟨rfl, rfl, rfl, rfl⟩, rfl, rfl⟩ rfl

/-- The second pass on one record, if it is live. -/
theorem quiet_readTruth (row : Row) (hw : row ∈ s.written) (hlive : row.state.terminal = false)
    (hb : pc.begun = none := by rfl) : Quiet cfg t Anywhere (readTruth cfg row) pc s := by
  refine (wp_bind' _).2 ((wp_suspend _).2 ⟨⟨hw, hb⟩, fun s1 a g1 _ => ?_⟩)
  have g1 : Grows s s1 := g1
  have done : ∀ {p s'}, Grows s s' → After Anywhere pc s (pc.move p) s' := fun g => .move trivial g
  have stored : ∀ {s' : World} {id row'}, s'.row? id = some row → Kept row row' →
      s'.row? row'.id = some row := by
    intro s' id row' hold hk
    rw [hk.1.1, Table.key_of_get hold]
    exact hold
  simp only [wp_bind', wp_ofExcept, readSession_eq, next_await, wp_getRow, Pc.toss_read]
  refine ⟨fun truth ht => ⟨done g1, (wp_ite _ _ _).2 ⟨fun _ => done g1, fun hrow => ?_⟩⟩,
    fun e _ => done g1⟩
  refine (wp_bind' _).2 ((wp_validateTruth _ _).2 ⟨fun _ => ?_, fun _ _ => done g1⟩)
  simp only [wp_bind', wp_truthInt]
  refine ⟨fun n hn => (wp_ite _ _ _).2 ⟨fun h0 => ?_, fun _ => (wp_ite _ _ _).2
    ⟨fun hst => ?_, fun hst => ?_⟩⟩, fun _ _ => done g1⟩
  · refine (wp_discard _).2 (wp_recordClosed (fun row' m _ hk _ hc => ?_)
      (fun _ => done g1) fun _ _ g => done (g1.trans g))
    refine ⟨by rw [hk.1.1]; exact not_not.1 hrow, hk, hlive,
      .inr (.inr (.inr ⟨hc, _, a, row, n, rfl, rfl, hk.1.1.symm, ?_, h0⟩))⟩
    simp [closedAt, ht, hn]
  · have hj : ∀ xs, iterate (closeTransactions row) = .ok xs →
        (Judged.closing row truth).transactions = .ok xs := fun _ h => h
    refine (wp_bind' _).2 (wp_transactionState hj trivial Pc.at_anywhere (fun e p s2 g2 _ => done (g1.trans g2))
      fun v p s2 g2 _ _ hv => ?_)
    simp only [wp_bind', wp_now]
    refine (quiet_storeTruth Pc.at_anywhere fun hold row' hk' hst' => ?_).later (g1.trans g2)
    by_cases hf : v = .failed
    · rw [if_pos hf] at hold hk' hst'
      exact ⟨stored hold hk', hk', hlive, .inr (.inr (.inl ⟨hst, hst', truth, hv hf⟩))⟩
    · rw [if_neg hf] at hold hk' hst'
      exact ⟨stored hold hk', hk', hlive, .inl hst'⟩
  · refine (quiet_storeTruth Pc.at_anywhere fun hold row' hk' hst' => ?_).later g1
    unfold reopened at hold hk' hst'
    split_ifs at hold hk' hst' with hu
    · exact ⟨stored hold hk', hk', hlive, .inr (.inl ⟨hu, hst'⟩)⟩
    · exact ⟨stored hold hk', hk', hlive, .inl hst'⟩

/-- The second pass is quiet. -/
theorem quiet_truthPass (rows : List Row) :
    ∀ {pc s}, pc.At Anywhere → (∀ r ∈ rows, r ∈ s.written ∧ r.state.terminal = false) →
      Quiet cfg t Anywhere (truthPass cfg rows) pc s := by
  induction rows with
  | nil => exact fun h _ => quiet_pure h _
  | cons row rest ih =>
    intro pc s h hw
    have next : ∀ p s', Grows s s' → Quiet cfg t Anywhere (truthPass cfg rest) (pc.move p) s' :=
      fun p s' g => ih Pc.at_anywhere fun r hr =>
        (hw r (List.mem_cons_of_mem _ hr)).imp_left g.mem
    refine .bind (quiet_now h) fun time p s1 _ g1 => ?_
    refine .ite (fun _ => ?_) fun _ => next p s1 g1
    have hrow := (hw row List.mem_cons_self).imp_left g1.mem
    refine .bind (quiet_readTruth row hrow.1 hrow.2).attempt fun r q s2 _ g2 => ?_
    replace g2 := g1.trans g2
    split
    · exact next q s2 g2
    · refine .ite (fun _ => quiet_raise Pc.at_anywhere _) fun _ => ?_
      refine (wp_bind' _).2 ((wp_getRow _ _).2 ⟨Pc.at_anywhere.refl s2, ?_⟩)
      refine (wp_ite _ _ _).2 ⟨fun hold => ?_, fun _ => next q s2 g2⟩
      refine (wp_bind' _).2 ((wp_discard _).2 (wp_markError ?_ (fun _ => rfl) (Pc.at_anywhere.refl s2)
        fun s3 g3 => (next q s3 (g2.trans g3)).still g3))
      exact ⟨hold, ⟨⟨rfl, rfl, rfl, rfl⟩, rfl, rfl⟩, rfl⟩

/-! ### Receipts of openings -/

/-- Fewer records of the list are no less current. -/
theorem Current.sublist {st : Store} {rows rows' : List Row} (h : Current st rows)
    (hs : rows'.Sublist rows) : Current st rows' :=
  ⟨fun r hr => h.1 r (hs.subset hr), h.2.sublist (hs.map _)⟩

/-- Behind the first record the others are listed. -/
theorem Listed.tail {row : Row} {rest : List Row} (h : Listed pc s (row :: rest)) :
    Listed pc s rest := by
  rcases h with hs | hs
  · exact .inl (hs.sublist (List.sublist_cons_self row rest))
  · exact .inr ((List.suffix_cons row rest).trans hs)

/-- The judgement of the first record of the list leaves the others listed, and that one
too unless it was stored. -/
theorem wp_judgeOpening (row : Row) (rest : List Row) (h : pc.At Anywhere) (hw : row ∈ s.written)
    (hst : row.state = .openUnknown) (hid : row.chainId = none) (hlist : Listed pc s (row :: rest))
    {Q : Unit → Pc → World → Prop} {E : Exc → Pc → World → Prop}
    (hE : ∀ e p s', Grows s s' → Listed (pc.move p) s' (row :: rest) → E e (pc.move p) s')
    (hQ : ∀ p s', Grows s s' → Listed (pc.move p) s' rest → Q () (pc.move p) s') :
    Wp cfg t (judgeOpening cfg row rest) Q E pc s := by
  have start : Listed (pc.move pc.place) s (row :: rest) := by rwa [h.clean.move_self]
  simp only [judgeOpening, wp_bind', wp_ofExcept, wp_ite, wp_pure]
  refine ⟨fun txs htxs => ⟨fun _ => ?_, fun _ => ?_⟩, fun e _ => ?_⟩
  · have hj : ∀ xs, iterate (.arr txs) = .ok xs → (Judged.opening row rest).transactions = .ok xs :=
      fun _ hxs => htxs.trans hxs
    refine wp_transactionState hj hlist h hE fun v p s1 g1 hl1 _ hv => ?_
    have hl1 : Listed (pc.move p) s1 (row :: rest) := hl1
    simp only [wp_ite, wp_pure, wp_putRow, Pc.toss_write]
    refine ⟨fun hf => ⟨hE _ p s1 g1 hl1, ?_, ?_⟩, fun _ => hQ p s1 g1 hl1.tail⟩
    · exact ⟨rfl, g1.mem hw, ⟨⟨rfl, rfl, rfl, rfl⟩, rfl, rfl⟩, hst, hid, hv hf⟩
    · exact hQ (.spent rest) _ (by simp [g1]) (.inr (List.suffix_refl rest))
  · have := hQ pc.place s (Grows.refl s) start.tail
    rwa [h.clean.move_self] at this
  · have := hE e pc.place s (Grows.refl s) start
    rwa [h.clean.move_self] at this

/-- The third pass is quiet. -/
theorem quiet_receiptPass (rows : List Row) :
    ∀ {pc s}, pc.At Anywhere → Listed pc s rows → (∀ r ∈ rows, r ∈ s.written) →
      Quiet cfg t Anywhere (receiptPass cfg rows) pc s := by
  induction rows with
  | nil => exact fun h _ _ => quiet_pure h _
  | cons row rest ih =>
    intro pc s h hlist hw
    have next : ∀ p s', Grows s s' → Listed (pc.move p) s' rest →
        Wp cfg t (receiptPass cfg rest) (fun _ => After Anywhere pc s) (fun _ => After Anywhere pc s)
          (pc.move p) s' := fun p s' g hl =>
      (ih Pc.at_anywhere hl fun r hr => g.mem (hw r (List.mem_cons_of_mem _ hr))).later g
    have hrow := hw row List.mem_cons_self
    refine (wp_ite _ _ _).2 ⟨fun ⟨hst, hid⟩ => ?_, fun _ => ?_⟩
    · refine (wp_bind' _).2 ((wp_attempt _).2 (wp_judgeOpening row rest h hrow hst hid hlist
        (fun e p s1 g1 hl1 => ?_) next))
      cases e with
      | gateway g =>
        have hwrite : RowWrite cfg (pc.move p) s1 (withError row (.gateway g) s1.now)
            (.receiptPassError row rest) :=
          ⟨hst, hid, g1.mem hrow, ⟨⟨rfl, rfl, rfl, rfl⟩, rfl, rfl⟩, hst, hl1⟩
        refine (wp_bind' _).2 ((wp_discard _).2 (wp_markError_emit hwrite (.move trivial g1) fun s2 g2 => ?_))
        exact next (.spent rest) s2 (g1.trans g2) (.inr (List.suffix_refl rest))
      | _ => exact .move trivial g1
    · have := next pc.place s (Grows.refl s)
      rw [h.clean.move_self] at this
      exact this hlist.tail

/-- The listed records were stored, and are live. -/
theorem mem_sessions {r : Row} (hr : r ∈ s.sessions) : r ∈ s.written ∧ r.state.terminal = false := by
  obtain ⟨hm, hlive⟩ := List.mem_filter.1 hr
  exact ⟨s.store.sessions.stored r hm, by simpa using hlive⟩

/-- `reconcile` is quiet. -/
theorem quiet_reconcile (h : pc.At Anywhere) : Quiet cfg t Anywhere (reconcile cfg) pc s := by
  refine (wp_bind' _).2 (wp_sessions.2 ⟨h.refl s, ?_⟩)
  refine Quiet.bind (quiet_journalPass _ h fun r hr => (mem_sessions hr).1) fun _ p s1 _ g1 => ?_
  refine (wp_bind' _).2 (wp_sessions.2 ⟨Pc.at_anywhere.refl s1, ?_⟩)
  refine Quiet.bind (quiet_truthPass _ Pc.at_anywhere fun r hr => mem_sessions hr) fun _ q s2 _ g2 => ?_
  refine (wp_bind' _).2 (wp_sessions.2 ⟨Pc.at_anywhere.refl s2, ?_⟩)
  have stored := stored_sessions s2
  have current : Current s2.store s2.sessions :=
    ⟨fun r hr => ⟨stored.row? r hr, (mem_sessions hr).2⟩, stored.nodup⟩
  exact quiet_receiptPass _ Pc.at_anywhere (.inl current) fun r hr => (mem_sessions hr).1

end MorpheusGateway
