/-
# The wallet scan and withdrawals keep the protocol

The functions of `Sessions.Wallet`.  The scan of a page has no await; `ScanOk` is what
its loop keeps.  `treasury` carries the list of the withdrawals that it has still to
settle from await to await (`Narrowed`), and comes to a new withdrawal only when
none is left.
-/

import MorpheusGateway.Protocol.Reconciling

namespace MorpheusGateway

open Contract Sessions

variable {cfg : Config} {t : ℕ} {A : Place → Prop} {pc : Pc} {s : World}

/-! ### The scan -/

/-- A record listed as an uncertain opening, as it is in memory. -/
structure Uncertain (s : World) (r : Row) : Prop where
  state : r.state = .openUnknown
  chainId : r.chainId = none
  written : ∃ old ∈ s.written, Kept old r ∧ old.state = .openUnknown
  stored : (∃ sid, r.id = .wallet sid) ∨ Fresh s r fun old => old.state = .openUnknown

/-- What the loop over a page keeps: the uncertain records, and that every other session
that a live record carries is known or was found on this page. -/
structure ScanOk (s : World) (known : List (Option String)) (uncertain : List Row) : Prop where
  uncertain : ∀ r ∈ uncertain, Uncertain s r
  known : ∀ r ∈ s.sessions, ∀ sid, r.chainId = some sid → some sid ∈ known ∨ r.id = .wallet sid

/-- A record stays uncertain when others are stored. -/
theorem Uncertain.put {r row : Row} (h : Uncertain s r) (w : Writer)
    (hrow : Uncertain s row ∨ ∃ sid, row.id = .wallet sid) :
    Uncertain (s.apply t (.put w row)) r where
  state := h.state
  chainId := h.chainId
  written := by
    obtain ⟨old, hm, hk⟩ := h.written
    exact ⟨old, List.mem_cons_of_mem _ hm, hk⟩
  stored := by
    rcases h.stored with hs | ⟨old, hold, hk, ho⟩
    · exact .inl hs
    · by_cases hid : r.id = row.id
      · rcases hrow with hrow | ⟨sid, hsid⟩
        · rcases hrow.stored with ⟨sid, hsid⟩ | ⟨old', hold', hk', -⟩
          · exact .inl ⟨sid, hid.trans hsid⟩
          · obtain rfl : old = old' := Option.some.inj (hold.symm.trans (hid ▸ hold'))
            exact .inr ⟨row, by rw [row?_put, if_pos hid], hk'.symm.trans hk, hrow.state⟩
        · exact .inl ⟨sid, hid.trans hsid⟩
      · refine .inr ⟨old, ?_, hk, ho⟩
        rw [row?_put, if_neg hid]
        exact hold

/-- A scan goes on as its records are stored. -/
theorem ScanOk.put {known : List (Option String)} {rows : List Row} {row : Row}
    (h : ScanOk s known rows) (w : Writer) (hrow : Uncertain s row ∨ ∃ sid, row.id = .wallet sid)
    (hid : ∀ sid, row.chainId = some sid → row.id = .wallet sid) :
    ScanOk (s.apply t (.put w row)) known rows where
  uncertain r hr := (h.uncertain r hr).put w hrow
  known r hr sid hsid := by
    obtain ⟨hm, hlive⟩ := List.mem_filter.1 hr
    rcases Table.mem_put.1 hm with rfl | ⟨hm, -⟩
    · exact .inr (hid sid hsid)
    · exact h.known r (List.mem_filter.2 ⟨hm, hlive⟩) sid hsid

/-- It goes on where no record is changed. -/
theorem ScanOk.inert {known : List (Option String)} {rows : List Row} {s' : World}
    (h : ScanOk s known rows) (hs : s'.store.sessions = s.store.sessions) : ScanOk s' known rows := by
  have hw : s'.written = s.written := by rw [World.written, hs]; rfl
  have hrow : ∀ id, s'.row? id = s.row? id := fun id => by rw [World.row?, hs]; rfl
  refine ⟨fun r hr => ?_, fun r hr => h.known r ?_⟩
  · obtain ⟨h1, h2, h3, h4⟩ := h.uncertain r hr
    refine ⟨h1, h2, hw ▸ h3, h4.imp_right fun ho => ?_⟩
    obtain ⟨old, ho, hk⟩ := ho
    exact ⟨old, (hrow _).trans ho, hk⟩
  · rwa [World.sessions, hs] at hr

/-- A further candidate changes nothing that matters here. -/
theorem Uncertain.addCandidate {r : Row} (h : Uncertain s r) (sid : String) :
    Uncertain s (addCandidate sid r) := by
  unfold Sessions.addCandidate
  split_ifs
  · exact h
  · obtain ⟨h1, h2, ⟨old, hm, hk, ho⟩, h4⟩ := h
    refine ⟨h1, h2, ⟨old, hm, hk.trans (Kept.refl _), ho⟩, h4.imp_right ?_⟩
    exact fun ⟨old, hold, hk, ho⟩ => ⟨old, hold, hk.trans (Kept.refl _), ho⟩

/-- The candidates are stored in their records. -/
theorem wp_putCandidates {known : List (Option String)} {uncertain : List Row} (rows : List Row)
    {Q : Unit → Pc → World → Prop} {E : Exc → Pc → World → Prop} :
    ∀ {s}, ScanOk s known uncertain → (∀ r ∈ rows, Uncertain s r) →
      (∀ e s', Grows s s' → ScanOk s' known uncertain → E e pc s') →
      (∀ s', Grows s s' → ScanOk s' known uncertain → Q () pc s') →
      Wp cfg t (putCandidates rows) Q E pc s := by
  induction rows with
  | nil => exact fun hs _ _ hQ => hQ _ (Grows.refl _) hs
  | cons r rest ih =>
    intro s hs hr hE hQ
    have hr1 := hr r List.mem_cons_self
    refine (wp_bind' _).2 ((wp_putRow _ _ _).2 ⟨by simpa using hE _ s (Grows.refl s) hs,
      ⟨hr1.state, hr1.written, hr1.stored⟩, ?_⟩)
    refine ih (hs.put _ (.inl hr1) fun sid h => ?_)
      (fun r' hr' => (hr r' (List.mem_cons_of_mem _ hr')).put _ (.inl hr1))
      (fun e s' g => hE e s' (Grows.trans (by simp) g)) fun s' g => hQ s' (Grows.trans (by simp) g)
    exact nomatch hr1.chainId.symm.trans h

/-- An orphan is stored under an ID of its own. -/
theorem wp_orphan {known : List (Option String)} {uncertain : List Row} {sid : String} {truth : Json}
    (hs : ScanOk s known uncertain) (hsid : some sid ∉ known) {Q : Unit → Pc → World → Prop}
    {E : Exc → Pc → World → Prop} (hE : ∀ e s', Grows s s' → ScanOk s' known uncertain → E e pc s')
    (hQ : ∀ s', Grows s s' → ScanOk s' known uncertain → Q () pc s') :
    Wp cfg t (orphan sid truth) Q E pc s := by
  have err : ∀ {e}, E e pc s := hE _ s (Grows.refl s) hs
  have done : Q () pc s := hQ s (Grows.refl s) hs
  have stored : ∀ row : Row, row.id = .wallet sid → row.chainId = some sid → row.state = .orphaned →
      row.closeOperationId = none →
      Wp cfg t (do _validateTruth row truth; putRow .orphan row; event) Q E pc s := by
    intro row hid hcid hst hop
    refine (wp_bind' _).2 ((wp_validateTruth _ _).2 ⟨fun _ => ?_, fun _ _ => err⟩)
    refine (wp_bind' _).2 ((wp_putRow _ _ _).2 ⟨by simpa using err, ⟨hst, hop, ⟨sid, hid, hcid⟩, ?_⟩,
      wp_event.2 ?_⟩)
    · rw [hcid, hid]
      exact fun r hr hc => (hs.known r hr sid hc).resolve_left hsid
    · have hput := hs.put (t := t) .orphan (.inr ⟨sid, hid⟩) fun sid' h => by
        rw [hid, Option.some.inj (hcid.symm.trans h)]
      exact ⟨hQ _ (by simp) hput, hQ _ (by simp) (hput.inert rfl)⟩
  simp only [orphan, wp_bind', wp_ofExcept, wp_ite, wp_pure, wp_policy, wp_now, wp_truthInt,
    Pc.toss_read]
  refine ⟨fun _ _ => ⟨fun _ => done, fun _ => ⟨err, fun _ _ => ⟨fun _ => ⟨fun endsAt _ =>
    ⟨fun stake _ => ?_, fun _ _ => err⟩, fun _ _ => err⟩, fun _ => done⟩, fun _ _ => err⟩⟩, fun _ _ => err⟩
  exact (wp_bind' _).1 (stored _ rfl rfl rfl rfl)

/-- What a filter leaves was there. -/
theorem mem_of_filterAuxM {α : Type} {p : α → Except Exc Bool} {l acc l' : List α}
    (h : l.filterAuxM p acc = .ok l') : ∀ a ∈ l', a ∈ l ∨ a ∈ acc := by
  induction l generalizing acc with
  | nil =>
    obtain rfl : acc = l' := Except.ok.inj h
    exact fun a ha => .inr ha
  | cons b rest ih =>
    rw [List.filterAuxM] at h
    cases hb : p b with
    | error e => rw [hb] at h; cases h
    | ok keep =>
      rw [hb] at h
      intro a ha
      rcases ih h a ha with hr | hc
      · exact .inl (List.mem_cons_of_mem _ hr)
      · cases keep with
        | true =>
          rcases List.mem_cons.1 hc with rfl | hc
          · exact .inl List.mem_cons_self
          · exact .inr hc
        | false => exact .inr hc

/-- Filtering with a test that may raise keeps elements of the list. -/
theorem mem_of_filterM {α : Type} {p : α → Except Exc Bool} {l l' : List α}
    (h : l.filterM p = .ok l') : ∀ a ∈ l', a ∈ l := by
  unfold List.filterM at h
  cases hl : l.filterAuxM p [] with
  | error e => rw [hl] at h; cases h
  | ok r =>
    rw [hl] at h
    obtain rfl : r.reverse = l' := Except.ok.inj h
    exact fun a ha => (mem_of_filterAuxM hl a (List.mem_reverse.1 ha)).resolve_right nofun

/-- A session that is scanned is skipped, a candidate or an orphan. -/
theorem wp_scanSession {known : List (Option String)} {uncertain : List Row} {truth : Json}
    (hs : ScanOk s known uncertain) {Q : List Row → Pc → World → Prop} {E : Exc → Pc → World → Prop}
    (hE : ∀ e s', Grows s s' → ScanOk s' known uncertain → E e pc s')
    (hQ : ∀ rows s', Grows s s' → ScanOk s' known rows → Q rows pc s') :
    Wp cfg t (scanSession cfg known uncertain truth) Q E pc s := by
  simp only [scanSession, wp_bind', wp_memory, wp_ite, wp_pure, wp_ofExcept]
  refine ⟨fun _ => hQ _ s (Grows.refl s) hs, fun hk => ⟨fun matching hm => ⟨fun _ => ?_, fun _ => ?_⟩,
    fun e _ => hE e s (Grows.refl s) hs⟩⟩
  · refine (wp_putCandidates _ hs (fun r hr => ?_) hE fun s1 g1 hs1 => hQ _ s1 g1 ⟨fun r hr => ?_, hs1.known⟩)
    · obtain ⟨r', hr', rfl⟩ := List.mem_map.1 hr
      exact (hs.uncertain r' (mem_of_filterM hm r' hr')).addCandidate _
    · obtain ⟨r', hr', rfl⟩ := List.mem_map.1 hr
      split_ifs
      · exact (hs1.uncertain r' hr').addCandidate _
      · exact hs1.uncertain r' hr'
  · exact wp_orphan hs (fun h => hk (.inr (.inr h))) hE fun s1 g1 hs1 => hQ _ s1 g1 hs1

/-- The scan of a page is quiet. -/
theorem quiet_scan (h : pc.At A) {known : List (Option String)} (page : List Json) :
    ∀ {s uncertain}, ScanOk s known uncertain →
      Quiet cfg t A (scan cfg known uncertain page) pc s := by
  induction page with
  | nil => exact fun _ => quiet_pure h _
  | cons truth rest ih =>
    intro s uncertain hs
    simp only [scan, Quiet, wp_bind', wp_attempt]
    apply wp_scanSession hs
    · intro e s1 g1 hs1
      simp only [wp_ite, raise_seq, wp_raise, wp_bind', wp_event]
      refine ⟨fun _ => h.after g1, fun _ => ⟨(ih hs1).still g1, ?_⟩⟩
      exact (ih (s := s1.apply t (.storeError true)) (hs1.inert rfl)).still (by simpa using g1)
    · intro rows s1 g1 hs1
      exact (ih hs1).still g1

/-- The records of the store, as `sweep_wallet` lists them. -/
theorem scanOk_sessions (s : World) : ScanOk s (s.sessions.map Row.chainId)
    (s.sessions.filter fun r => r.state = .openUnknown && r.chainId.isNone) where
  uncertain r hr := by
    obtain ⟨hm, hp⟩ := List.mem_filter.1 hr
    obtain ⟨hst, hid⟩ : r.state = .openUnknown ∧ r.chainId = none := by simpa using hp
    exact ⟨hst, hid, ⟨r, (mem_sessions hm).1, Kept.refl r, hst⟩,
      .inr ⟨r, (stored_sessions s).row? r hm, Kept.refl r, hst⟩⟩
  known r hr sid hsid := .inl (hsid ▸ List.mem_map_of_mem hr)

/-- Binding the records with one candidate is quiet. -/
theorem quiet_bindCandidates (rows : List Row) :
    ∀ {pc s}, pc.At Anywhere → (∀ r ∈ rows, r ∈ s.written) →
      Quiet cfg t Anywhere (bindCandidates cfg rows) pc s := by
  induction rows with
  | nil => exact fun h _ => quiet_pure h _
  | cons row rest ih =>
    intro pc s h hw
    have next : ∀ p s', Grows s s' → Quiet cfg t Anywhere (bindCandidates cfg rest) (pc.move p) s' :=
      fun p s' g => ih Pc.at_anywhere fun r hr => g.mem (hw r (List.mem_cons_of_mem _ hr))
    have skip : Quiet cfg t Anywhere (bindCandidates cfg rest) pc s :=
      h.clean.move_self ▸ next pc.place s (Grows.refl s)
    have hrow := hw row List.mem_cons_self
    unfold bindCandidates
    split
    · refine .ite (fun ⟨hst, hid⟩ => ?_) fun _ => skip
      refine .bind (quiet_bind h row.id _).attempt fun r p s1 _ g1 => ?_
      split
      · exact next p s1 g1
      · rename_i g
        have hw : RowWrite cfg (pc.move p) s1 (withError row (.gateway g) s1.now) .sweepError :=
          ⟨hst, hid, row, g1.mem hrow, ⟨⟨rfl, rfl, rfl, rfl⟩, rfl, rfl⟩, hst⟩
        exact .bind (quiet_markError Pc.at_anywhere hw fun _ => rfl).discard fun _ q s2 _ g2 =>
          next q s2 (g1.trans g2)
      · exact quiet_raise Pc.at_anywhere _
    · exact skip

/-- A sweep of the wallet is quiet. -/
theorem quiet_sweepWallet (h : pc.At Anywhere) : Quiet cfg t Anywhere (sweepWallet cfg) pc s := by
  have hid : Quiet cfg t Anywhere (verifyIdentity cfg .sweep) pc s :=
    quiet_verifyIdentity trivial (fun _ => trivial) h.clean.2.2.2
  refine .bind hid fun identity p s1 _ _ => ?_
  refine .bind (quiet_fetch Pc.at_anywhere _) fun offset p s2 _ _ => ?_
  refine .bind (quiet_suspend trivial fun _ => trivial) fun a p s3 _ _ => ?_
  refine .bind (quiet_ofExcept Pc.at_anywhere _) fun batch p s4 _ _ => ?_
  refine (wp_bind' _).2 (wp_sessions.2 ⟨Pc.at_anywhere.refl s4, ?_⟩)
  refine (wp_bind' _).2 (wp_sessions.2 ⟨Pc.at_anywhere.refl s4, ?_⟩)
  refine Quiet.bind (quiet_scan Pc.at_anywhere batch (scanOk_sessions s4)) fun _ q s5 _ g5 => ?_
  refine .bind (quiet_store Pc.at_anywhere trivial rfl) fun _ q s6 _ _ => ?_
  refine .ite (fun _ => ?_) fun _ => quiet_pure Pc.at_anywhere _
  refine (wp_bind' _).2 (wp_sessions.2 ⟨Pc.at_anywhere.refl s6, ?_⟩)
  exact quiet_bindCandidates _ Pc.at_anywhere fun r hr => (mem_sessions hr).1

/-! ### Withdrawals -/

section Narrowed

variable {carried : Site → Option (List Operation)} {p : Operation → Bool} {op op' : Operation}
  {rest l : List Operation}

/-- The operations that are left, once this one is dealt with or its record renewed. -/
theorem Narrowed.put (h : Narrowed pc s carried p (op :: rest)) (w : OperationWriter)
    (hid : op'.id = op.id) (hl : ∀ o ∈ rest, o ∈ l) (hop : p op' = true → op' ∈ l) :
    Narrowed pc (s.apply t (.putOperation w op')) carried p l := by
  have covered : ∀ o' : Operation, o' ∈ ((s.apply t (.putOperation w op')).store.operations).rows →
      p o' = true → (o' ∈ s.store.operations.rows → ∃ o ∈ op :: rest, p o = true ∧ o.id = o'.id) →
      ∃ o ∈ l, p o = true ∧ o.id = o'.id := by
    intro o' ho' hu hold
    rcases Table.mem_put.1 ho' with rfl | ⟨ho, hne⟩
    · exact ⟨_, hop hu, hu, rfl⟩
    · obtain ⟨o, hm, hou, hoid⟩ := hold ho
      rcases List.mem_cons.1 hm with rfl | hm
      · exact absurd (hoid.symm.trans hid.symm) hne
      · exact ⟨o, hl o hm, hou, hoid⟩
  rcases h with hc | ⟨i, a, l', hpc, hi, hc⟩
  · exact .inl fun o' ho' hu => covered o' ho' hu fun ho => hc o' ho hu
  · refine .inr ⟨i, a, l', hpc, hi, fun o' ho' hu hl' => covered o' ho' hu fun ho => hc o' ho hu hl'⟩

/-- An operation that does not count need not be looked at. -/
theorem Narrowed.skip (h : Narrowed pc s carried p (op :: rest)) (hop : p op = false) :
    Narrowed pc s carried p rest := by
  have drop : ∀ {id}, (∃ o ∈ op :: rest, p o = true ∧ o.id = id) →
      ∃ o ∈ rest, p o = true ∧ o.id = id := by
    rintro id ⟨o, hm, hu, hid⟩
    rcases List.mem_cons.1 hm with rfl | hm
    · exact nomatch hop.symm.trans hu
    · exact ⟨o, hm, hu, hid⟩
  rcases h with hc | ⟨i, a, l', hpc, hi, hc⟩
  · exact .inl fun o ho hu => drop (hc o ho hu)
  · exact .inr ⟨i, a, l', hpc, hi, fun o ho hu hl' => drop (hc o ho hu hl')⟩

/-- An await carries the list it was given. -/
theorem Narrowed.woken {i : Site} {a : Answer} (hi : carried i = some l) :
    Narrowed (pc.move (.woken i a)) s carried p l :=
  .inr ⟨i, a, l, rfl, hi, fun _ _ _ h => h⟩

end Narrowed

/-- `journalWithdrawal`, after the journal answered. -/
def journalDecision (op : Operation) (progress : Option Json) : Op (Operation × Bool) := do
  match progress.filter Json.truth with
  | none => return (op, false)
  | some progress =>
    let op := { op with transactions := progress.getD "transactions" (.arr []) }
    if (progress.get "completed").truth ∧ isStatus200 progress then
      let op := { op with state := .succeeded,
                          message := "Native journal confirms mined withdrawal" }
      store (.putOperation .settle op)
      return (op, true)
    if journalUnsent progress then
      let op := { op with state := .failed,
                          message := "Native journal confirms no withdrawal submission" }
      store (.putOperation .settle op)
      return (op, true)
    store (.putOperation .settle op)
    return (op, false)

/-- The journal settles the withdrawal, or leaves it to be judged. -/
theorem wp_journalWithdrawal {op : Operation} {rest : List Operation} (h : pc.At Anywhere)
    (hl : pc.lock = true) (hop : op.unresolved = true)
    (hn : Narrowed pc s Site.unsettled Operation.unresolved (op :: rest))
    {Q : Operation × Bool → Pc → World → Prop} {E : Exc → Pc → World → Prop}
    (hE : ∀ e p s', Grows s s' → E e (pc.move p) s')
    (hdone : ∀ op' p s', Grows s s' →
      Narrowed (pc.move p) s' Site.unsettled Operation.unresolved rest → Q (op', true) (pc.move p) s')
    (hQ : ∀ op' p s', Grows s s' → op'.unresolved = true →
      Narrowed (pc.move p) s' Site.unsettled Operation.unresolved (op' :: rest) →
      Q (op', false) (pc.move p) s') :
    Wp cfg t (journalWithdrawal cfg op rest) Q E pc s := by
  have decided : ∀ progress p s', Grows s s' →
      Narrowed (pc.move p) s' Site.unsettled Operation.unresolved (op :: rest) →
      (∀ data, progress = some data → ∃ a, p = .woken (.withdrawalJournal op rest) a ∧
        helperRequest a = .ok data) →
      Wp cfg t (journalDecision op progress) Q E (pc.move p) s' := by
    intro progress p s' g hn hp
    unfold journalDecision
    split
    · exact hQ _ _ _ g hop hn
    · rename_i data hd
      obtain ⟨a, rfl, ha⟩ := hp data (Option.filter_eq_some_iff.1 hd).1
      have hkind : op.kind = .withdraw := by
        simp only [Operation.unresolved, Bool.and_eq_true, decide_eq_true_eq] at hop
        exact hop.1
      simp only [wp_ite, wp_bind', wp_store, wp_pure, Pc.toss_write]
      refine ⟨fun _ => ⟨hE _ _ _ g, ⟨hkind, hl, _, a, op, rest, rfl, rfl, rfl, .inr (.inl rfl)⟩, ?_⟩,
        fun _ => ⟨fun hu => ⟨hE _ _ _ g, ⟨hkind, hl, _, a, op, rest, rfl, rfl, rfl,
          .inr (.inr ⟨rfl, .inl ⟨rfl, data, ha, hu⟩⟩)⟩, ?_⟩,
        fun _ => ⟨hE _ _ _ g, ⟨hkind, hl, _, a, op, rest, rfl, rfl, rfl, .inl hop⟩, ?_⟩⟩⟩
      · exact hdone _ _ _ (by simp [g]) (hn.put _ rfl (fun o ho => ho) (by simp [Operation.unresolved]))
      · exact hdone _ _ _ (by simp [g]) (hn.put _ rfl (fun o ho => ho) (by simp [Operation.unresolved]))
      · exact hQ _ _ _ (by simp [g]) hop
          (hn.put _ rfl (fun o ho => List.mem_cons_of_mem _ ho) fun _ => List.mem_cons_self)
  unfold journalWithdrawal
  refine (wp_ite _ _ _).2 ⟨fun _ => (wp_bind' _).2 ?_, fun _ => ?_⟩
  · have hask : AwaitOk cfg pc s (.withdrawalJournal op rest) := ⟨hl, hn⟩
    refine wp_journal ⟨hask, h.clean.2.2.2⟩ hE (fun a s' g => decided none _ s' g (.woken rfl) fun _ h => by cases h)
      fun a data s' g ha => decided _ _ s' g (.woken rfl) fun d hd => ⟨a, rfl, ?_⟩
    rw [ha, Option.some.inj hd]
  · exact h.clean.move_self ▸ decided none pc.place s (Grows.refl s) (h.clean.move_self.symm ▸ hn)
      fun _ h => by cases h

/-- The reconciliation loop ends only when no withdrawal is unresolved. -/
theorem wp_settleWithdrawals (ops : List Operation) {Q : Unit → Pc → World → Prop}
    {E : Exc → Pc → World → Prop} :
    ∀ {pc s}, pc.At Anywhere → pc.lock = true →
      Narrowed pc s Site.unsettled Operation.unresolved ops →
      (∀ e p s', Grows s s' → E e (pc.move p) s') →
      (∀ p s', Grows s s' → Narrowed (pc.move p) s' Site.unsettled Operation.unresolved [] →
        Q () (pc.move p) s') →
      Wp cfg t (settleWithdrawals cfg ops) Q E pc s := by
  induction ops with
  | nil =>
    intro pc s h _ hn _ hQ
    have := hQ pc.place s (Grows.refl s)
    rw [h.clean.move_self] at this
    exact this hn
  | cons op rest ih =>
    intro pc s h hl hn hE hQ
    have next : ∀ p s', Grows s s' → Narrowed (pc.move p) s' Site.unsettled Operation.unresolved rest →
        Wp cfg t (settleWithdrawals cfg rest) Q E (pc.move p) s' := fun p s' g hn' =>
      ih Pc.at_anywhere hl hn' (fun e q s2 g2 => hE e q s2 (g.trans g2))
        fun q s2 g2 hn2 => hQ q s2 (g.trans g2) hn2
    refine (wp_ite _ _ _).2 ⟨fun hop => ?_, fun hop => ?_⟩
    · refine (wp_bind' _).2 (wp_journalWithdrawal h hl hop hn hE
        (fun op1 p s1 g1 hn1 => next p s1 g1 hn1) fun op1 p s1 g1 hop1 hn1 => ?_)
      have hkind : op1.kind = .withdraw := by
        simp only [Operation.unresolved, Bool.and_eq_true, decide_eq_true_eq] at hop1
        exact hop1.1
      have hj : ∀ xs, iterate op1.transactions = .ok xs →
          (Judged.withdrawal op1 rest).transactions = .ok xs := fun _ h => h
      have hset : Settling (pc.move p) s1 (.withdrawal op1 rest) := ⟨hl, hn1⟩
      refine (wp_bind' _).2 (wp_transactionState hj hset Pc.at_anywhere
        (fun e q s2 g2 _ => hE e q s2 (g1.trans g2)) fun v q s2 g2 _ hv hf => ?_)
      have g2 := g1.trans g2
      have settle : ∀ op2 : Operation, op2.id = op1.id → op2.kind = .withdraw → v ≠ .unknown →
          (op2.state = .succeeded ∨ op2.state = .failed ∧ q.Reverted (.withdrawal op1 rest)) →
          Wp cfg t (do store (.putOperation .settle op2); settleWithdrawals cfg rest) Q E
            (pc.move q) s2 := by
        intro op2 hid hk hne hst
        obtain ⟨seen, tx, a, rfl⟩ := hv hne
        refine (wp_bind' _).2 ((wp_store _ _).2 ⟨hE _ _ _ g2, ⟨hk, hl, _, a, op1, rest, rfl, rfl,
          hid.symm, .inr (hst.imp_right fun ⟨h1, h2⟩ => ⟨h1, .inr h2⟩)⟩, ?_⟩)
        refine next _ _ (by simp [g2]) ((Narrowed.woken rfl).put _ hid (fun o ho => ho) fun hu => ?_)
        rcases hst with hst | ⟨hst, -⟩ <;> simp [Operation.unresolved, hst] at hu
      split
      · exact settle _ rfl hkind nofun (.inl rfl)
      · exact settle _ rfl hkind nofun (.inr ⟨rfl, hf rfl⟩)
      · exact hE _ _ _ g2
    · have := next pc.place s (Grows.refl s)
      rw [h.clean.move_self] at this
      exact this (hn.skip (by simpa using hop))

/-- What `submit_withdrawal` knows when it raises. -/
def Unpaid (pc : Pc) (op : Operation) : Prop :=
  op.kind = .withdraw ∧ (op.state = .succeeded ∨ ∃ o a, pc.place = .woken (.withdrawPost o) a ∧ op.id = o.id)

/-- The POST of a withdrawal pays it, or leaves it unpaid. -/
theorem wp_submitWithdrawal {op : Operation} (h : ParkOk cfg pc s (.withdrawPost op))
    {Q : Unit → Pc → World → Prop} {E : Operation × Exc → Pc → World → Prop}
    (hE : ∀ p s' op e, Grows s s' → Unpaid (pc.move p) op → E (op, e) (pc.move p) s')
    (hQ : ∀ p s', Grows s s' → Q () (pc.move p) s') :
    Wp cfg t (submitWithdrawal op) Q E pc s := by
  obtain ⟨⟨hl, hstored, hkind, hst, hrest⟩, hb⟩ := h
  simp only [submitWithdrawal, wp_bind', wp_suspend, wp_mapError, wp_ofExcept, wp_ite, wp_raise,
    raise_seq, wp_store, wp_discard, wp_storeOther, ok_park_move, grows_iff, next_await, Pc.toss_write]
  refine ⟨⟨⟨hl, hstored, hkind, hst, hrest⟩, hb⟩, fun s1 a1 g1 _ => ⟨fun data _ => ⟨fun _ => ?_,
    fun _ => ⟨?_, ?_, ⟨trivial, rfl⟩, fun s2 a2 g2 _ => ⟨fun _ _ => ⟨trivial, fun s3 a3 g3 _ => ⟨fun _ _ => ⟨?_, ?_⟩, fun _ _ => ?_⟩⟩, fun _ _ => ?_⟩⟩⟩, fun _ _ => ?_⟩⟩
  · exact hE _ _ _ _ g1 ⟨hkind, .inr ⟨op, a1, rfl, rfl⟩⟩
  · exact hE _ _ _ _ g1 ⟨hkind, .inl rfl⟩
  · exact ⟨hkind, hl, .inr ⟨op, a1, rfl, rfl⟩⟩
  · exact hE _ _ _ _ (((Grows.trans (by simp [g1]) g2).trans g3)) ⟨hkind, .inl rfl⟩
  · exact hQ _ _ (((Grows.trans (by simp [g1]) g2).trans g3))
  · exact hE _ _ _ _ (((Grows.trans (by simp [g1]) g2).trans g3)) ⟨hkind, .inl rfl⟩
  · exact hE _ _ _ _ (Grows.trans (by simp [g1]) g2) ⟨hkind, .inl rfl⟩
  · exact hE _ _ _ _ g1 ⟨hkind, .inr ⟨op, a1, rfl, rfl⟩⟩

/-- The handlers store what is known of a withdrawal that is not confirmed. -/
theorem wp_withdrawalFailed {op : Operation} {e : Exc} (hl : pc.lock = true) (hop : Unpaid pc op)
    {Q : Unit → Pc → World → Prop} {E : Exc → Pc → World → Prop}
    (hE : ∀ e pc' s', pc'.emit .unlock = pc.emit .unlock → pc'.lock = true → Grows s s' → E e pc' s') :
    Wp cfg t (withdrawalFailed (op, e)) Q E pc s := by
  have stored : ∀ op' : Operation, op'.id = op.id → op'.kind = op.kind → op.state ≠ .succeeded →
      Wp cfg t (do store (.putOperation .withdraw op'); Coro.raise e) Q E pc s := by
    intro op' hid hk hne
    obtain ⟨o, a, hpc, ho⟩ := hop.2.resolve_left hne
    simp only [wp_bind', wp_store, wp_raise, Pc.toss_write]
    exact ⟨hE _ _ _ rfl hl (Grows.refl s), ⟨hk.trans hop.1, hl, .inr ⟨o, a, hpc, hid.trans ho⟩⟩,
      hE _ _ _ rfl hl (by simp)⟩
  have raised : Wp cfg t (Coro.raise e : Op Unit) Q E pc s := hE _ _ _ rfl hl (Grows.refl s)
  cases e with
  | gateway g => exact (wp_ite _ _ _).2 ⟨stored _ rfl rfl, fun _ => raised⟩
  | _ => exact (wp_ite _ _ _).2 ⟨stored _ rfl rfl, fun _ => raised⟩

/-- The decision on a new withdrawal, and its POST. -/
theorem locked_withdraw {manual : Bool} {recovery : RecoveryPolicy} {stakes : Stakes}
    {balances : Balances} {st : Stakes} {a : Answer} (hl : pc.lock = true)
    (hpc : pc.place = .woken (.treasuryBalances st) a) (h : pc.At Anywhere) :
    Locked cfg t (withdraw manual recovery stakes balances) pc s := by
  have done : Unlocks pc s pc s := h.clean.move_self ▸ .move hl (Grows.refl s)
  have same : ∀ u w, ({ pc with uuid := u, withdrawal := w } : Pc).emit .unlock =
      (pc.move pc.place).emit .unlock := by
    intro u w
    rw [h.clean.move_self]
    rfl
  have clear : ¬(s.sessions.any fun r => r.state.unresolved) = true → ClearRows s none := by
    refine fun hc => clearRows_of_sessions fun r hr _ => ?_
    by_contra hu
    exact hc (List.any_eq_true.2 ⟨r, hr, by simpa using hu⟩)
  simp only [Locked, withdraw, wp_bind', wp_ite, wp_pure, wp_fetch, wp_now, wp_policy, wp_raise,
    raise_seq, wp_sessions, wp_uuid, wp_store, Pc.toss_read, Pc.toss_write]
  refine ⟨fun _ => done, fun _ => ⟨done, ⟨fun _ => done, fun _ => ⟨fun _ => done, fun _ => ⟨done,
    fun _ => done, fun _ => ⟨done, fun _ => done, fun hc => ⟨?_, ?_, ?_, trivial, ?_⟩⟩⟩⟩⟩⟩⟩
  all_goals have hrows := clear hc
  · exact ⟨hl, ⟨pc.place, same _ _⟩, by simp⟩
  · exact ⟨rfl, hl, .inl ⟨rfl, rfl, hrows, st, a, hpc⟩⟩
  · exact ⟨hl, ⟨pc.place, same _ _⟩, by simp⟩
  · refine (wp_tryCatch _).2 (wp_submitWithdrawal ?_ (fun p s2 op e g2 hu => ?_) fun p s2 g2 => ?_)
    · exact ⟨⟨hl, Table.get_put_self _ _, rfl, rfl, hrows, rfl, st, a, hpc⟩, h.clean.2.2.2⟩
    · have hl' : (pc.move p).lock = true := hl
      refine wp_withdrawalFailed hl' hu fun e pc' s3 hpc' hl' g3 => ?_
      exact ⟨hl', ⟨p, hpc'⟩, (Grows.trans (by simp) g2).trans g3⟩
    · have g2 : Grows s s2 := Grows.trans (by simp) g2
      exact wp_event.2 ⟨.move hl g2, .move hl (by simpa using g2)⟩

/-- `treasury` decides on a withdrawal only when no earlier one is unresolved. -/
theorem quiet_treasury (h : pc.At Anywhere) (hl : pc.lock = false) (manual : Bool) :
    Quiet cfg t Anywhere (treasury cfg manual) pc s := by
  refine quiet_withLock h hl fun p0 s0 _ => ?_
  generalize hpc : (pc.move p0).emit .lock = pc0
  have hl0 : pc0.lock = true := by rw [← hpc]; rfl
  have h0 : pc0.At Anywhere := hpc ▸ Pc.at_lock
  have done : ∀ {p s'}, Grows s0 s' → Unlocks pc0 s0 (pc0.move p) s' := fun g => .move hl0 g
  have hid : Quiet cfg t Anywhere (verifyIdentity cfg .treasury) pc0 s0 :=
    quiet_verifyIdentity trivial (fun _ => trivial) h0.clean.2.2.2
  simp only [Locked, wp_bind', wp_memory, wp_ite, wp_pure, wp_discard]
  refine ⟨fun _ => h0.clean.move_self ▸ done (Grows.refl s0), fun _ => ?_⟩
  refine wp_quiet hid (fun p s1 _ g1 _ => ?_) fun p s1 _ g1 _ => done g1
  simp only [wp_bind', wp_policy, wp_fetch, Pc.toss_read]
  refine ⟨done g1, done g1, ?_⟩
  refine wp_settleWithdrawals _ Pc.at_anywhere hl0 (.inl fun op hop hu => ⟨op, hop, hu, rfl⟩)
    (fun e p s2 g2 => done (g1.trans g2)) fun p s2 g2 hn => ?_
  replace g2 := g1.trans g2
  simp only [wp_bind', wp_suspend, wp_ofExcept, wp_storeOther, ok_park_move, grows_iff, next_await,
    Pc.toss_write]
  refine ⟨⟨hl0, hn⟩, fun s3 a3 g3 _ => ⟨fun stakes _ => ⟨⟨hl0, .woken rfl⟩, fun s4 a4 g4 _ =>
    ⟨fun balances _ => ⟨done ((g2.trans g3).trans g4), ?_⟩, fun _ _ => done ((g2.trans g3).trans g4)⟩⟩,
    fun _ _ => done (g2.trans g3)⟩⟩
  have hw : Locked cfg t (withdraw manual s1.store.policy.recovery stakes balances)
      (pc0.move (.woken (.treasuryBalances stakes) a4)) s4 := locked_withdraw hl0 rfl Pc.at_anywhere
  exact hw.later ((g2.trans g3).trans g4)

/-- A part of the sweep whose errors are caught is quiet. -/
theorem quiet_component {work : Op Unit} (hw : Quiet cfg t Anywhere work pc s) :
    Quiet cfg t Anywhere (component work) pc s := by
  refine .bind hw.attempt fun r p s1 _ _ => ?_
  split
  · exact quiet_pure Pc.at_anywhere _
  · exact .ite (fun _ => quiet_raise Pc.at_anywhere _) fun _ => quiet_event Pc.at_anywhere

/-- The task of the sweep is quiet. -/
theorem quiet_sweep (h : pc.At Anywhere) (hl : pc.lock = false) :
    Quiet cfg t Anywhere (sweep cfg) pc s := by
  refine .bind (quiet_component (quiet_sweepWallet h)) fun _ p s1 _ _ => ?_
  refine .bind (quiet_component (quiet_treasury Pc.at_anywhere hl false)) fun _ p s2 _ _ => ?_
  refine .bind (quiet_perform Pc.at_anywhere trivial rfl) fun _ p s3 _ _ => ?_
  refine .bind (quiet_storeOther Pc.at_anywhere fun b => Pc.toss_write _ b) fun _ p s4 _ _ => ?_
  exact quiet_store Pc.at_anywhere trivial rfl

end MorpheusGateway
