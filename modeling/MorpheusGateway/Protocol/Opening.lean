/-
# Opening keeps the protocol

The functions of `Sessions.Open`.  The preflight of `_open` is followed to the
`opening` record that it stores (`wp_reserve`), the POST and what follows it to the
record that `_open` stores last (`locked_openRounds`).
-/

import MorpheusGateway.Protocol.Shared

namespace MorpheusGateway

open Contract Sessions

variable {cfg : Config} {t : ℕ} {A : Place → Prop} {pc : Pc} {s : World} {α : Type}

/-- A policy with the same revision is the same policy. -/
theorem Grows.policy_eq {s' : World} (g : Grows s s')
    (h : s'.store.policy.revision = s.store.policy.revision) : s'.store.policy = s.store.policy := by
  rcases g.policy with hlt | he
  · omega
  · exact he

/-- A model that is found was found on a page of the catalogue. -/
theorem wp_findModel (h : pc.At Anywhere) (modelId : String) (offsets : List ℕ) :
    Wp cfg t (findModel modelId offsets) (fun _ => After (fun p => p.catalog = true) pc s)
      (fun _ => After Anywhere pc s) pc s := by
  induction offsets generalizing pc s with
  | nil => exact h.refl s
  | cons offset rest ih =>
    refine (wp_bind' _).2 ((wp_suspend _).2 ⟨⟨trivial, h.clean.2.2.2⟩, fun s1 a g1 _ => ?_⟩)
    have g1 : Grows s s1 := g1
    rw [next_await]
    refine (wp_bind' _).2 ((wp_ofExcept _).2 ⟨fun found _ => ?_, fun e _ => .move trivial g1⟩)
    refine (wp_ite _ _ _).2 ⟨fun _ => ⟨⟨_, rfl, rfl⟩, g1⟩, fun _ => ?_⟩
    exact wp_mono (fun _ _ _ => After.trans g1) (fun _ _ _ => After.trans g1) _ (ih Pc.at_anywhere)

/-! ### The preflight -/

/-- The place of an await of the preflight `l`. -/
def AtPreflight (l : Preflight) (p : Place) : Prop := ∃ i a, p = .woken i a ∧ i.preflight = some l

/-- The choice of a bid is quiet, and goes on in the preflight. -/
theorem quiet_selectBid {l : Preflight} (h : ParkOk cfg pc s (.openBids l)) :
    Quiet cfg t (AtPreflight l) (selectBid l) pc s := by
  have ranked : Quiet cfg t (AtPreflight l) (candidates l) pc s := by
    refine .bind (quiet_suspend h.1 (fun a => ⟨_, a, rfl, rfl⟩) h.2) fun a p s1 hp _ => ?_
    refine .bind (quiet_ofExcept (Pc.at_move hp) _) fun rated p s2 hp _ => ?_
    exact .bind (quiet_fetch (Pc.at_move hp) _) fun _ p _ hp _ => quiet_rank (Pc.at_move hp) ..
  refine .bind ranked fun found p s1 hp _ => ?_
  split
  · exact quiet_raise (Pc.at_move hp) _
  · refine .ite (fun _ => quiet_raise (Pc.at_move hp) _) fun _ => ?_
    refine .bind (quiet_suspend ⟨h.1.1, hp⟩ fun a => ⟨_, a, rfl, rfl⟩) fun a p s2 hp _ => ?_
    simp [Quiet, hp]

/-- The preflight ends with the `opening` record stored, ready for the POST. -/
theorem wp_reserve {l : Preflight} {s0 : World} (h : ParkOk cfg pc s (.openBids l))
    (hg : Grows s0 s) (hp : s0.store.policy = l.policy) {Q : Plan → Pc → World → Prop}
    {E : Exc → Pc → World → Prop} (hE : ∀ e pc' s', Unlocks pc s pc' s' → E e pc' s')
    (hQ : ∀ plan pc' s', Grows s s' → (∀ q, pc'.move q = pc.move q) →
      ParkOk cfg pc' s' (.openPost plan.row plan.duration plan.limit) → Q plan pc' s') :
    Wp cfg t (reserve l) Q E pc s := by
  have hl : pc.lock = true := h.1.1
  have err : ∀ {q s' e}, Grows s s' → E e (pc.move q) s' := fun g => hE _ _ _ (.move hl g)
  refine (wp_bind' _).2 (wp_quiet (quiet_selectBid h) (fun p s1 hp1 g1 r => ?_)
    fun p s1 _ g1 e => err g1)
  obtain ⟨bidId, provider, bid⟩ := r
  simp only [estimate, wp_bind', wp_suspend, wp_ofExcept, wp_pure, ok_park_move, grows_iff, next_await]
  refine ⟨⟨hl, hp1⟩, fun s2 a2 g2 _ => ⟨fun balances hb => ?_, fun e _ => err (g1.trans g2)⟩⟩
  replace g2 := g1.trans g2
  refine ⟨⟨⟨hl, _, a2, rfl, rfl⟩, a2, rfl, hb⟩, fun s3 a3 g3 _ =>
    ⟨fun supply _ => ?_, fun e _ => err (g2.trans g3)⟩⟩
  replace g3 := g2.trans g3
  refine ⟨⟨⟨hl, _, a3, rfl, rfl⟩, a3, rfl⟩, fun s4 a4 g4 _ =>
    ⟨fun budget _ => ⟨fun price _ => ?_, fun e _ => err (g3.trans g4)⟩,
      fun e _ => err (g3.trans g4)⟩⟩
  replace g4 := g3.trans g4
  refine ⟨⟨⟨hl, _, a4, rfl, rfl⟩, a4, rfl⟩, fun s5 a5 g5 _ =>
    ⟨fun stakes hs => ⟨fun staked hst => ?_, fun e _ => err (g4.trans g5)⟩,
      fun e _ => err (g4.trans g5)⟩⟩
  replace g5 := g4.trans g5
  simp only [wp_ite, wp_raise, raise_seq, wp_bind', wp_policy, wp_memory, wp_uuid, wp_now,
    wp_putRow, wp_event, wp_pure, Pc.toss_read, Pc.toss_write]
  refine ⟨fun _ => err g5, fun hlim => ⟨err g5, fun _ => err g5, fun hrev => ⟨?_, ?_, ?_⟩⟩⟩
  · exact hE _ _ _ ⟨hl, ⟨_, rfl⟩, by simp [g5]⟩
  · have hpol : l.policy = s5.store.policy := by
      have := (hg.trans g5).policy_eq (by rw [hp]; exact not_not.1 (not_or.1 hrev).1)
      rw [this, hp]
    refine ⟨hl, ⟨_, rfl, rfl⟩, rfl, rfl, rfl, rfl, rfl, hpol, ⟨a5, rfl, hs⟩, ?_⟩
    refine ⟨?_, ?_, ?_, staked, hst, rfl⟩
    all_goals omega
  · refine ⟨hQ _ _ _ (by simp [g5]) (fun _ => rfl) ?_,
      hQ _ _ _ (by simp [g5]) (fun _ => rfl) ?_⟩
    all_goals exact ⟨⟨hl, Table.get_put_self _ _, rfl, rfl, rfl, rfl, ⟨_, rfl⟩, rfl⟩, rfl⟩

/-- The preflight ends with nothing to open, or ready for the POST. -/
theorem wp_preflight (hl : pc.lock = true) (h : pc.At Anywhere) (modelId : String)
    {Q : Option Plan → Pc → World → Prop} {E : Exc → Pc → World → Prop}
    (hE : ∀ e pc' s', Unlocks pc s pc' s' → E e pc' s')
    (hnone : ∀ p s', Grows s s' → p.catalog = true → Q none (pc.move p) s')
    (hQ : ∀ plan pc' s', Grows s s' → (∀ q, pc'.move q = pc.move q) →
      ParkOk cfg pc' s' (.openPost plan.row plan.duration plan.limit) → Q (some plan) pc' s') :
    Wp cfg t (preflight cfg modelId) Q E pc s := by
  have err : ∀ {q s' e}, Grows s s' → E e (pc.move q) s' := fun g => hE _ _ _ (.move hl g)
  have err0 : ∀ {e}, E e pc s := h.clean.move_self ▸ err (Grows.refl s)
  simp only [preflight, model, wp_bind', wp_policy, wp_memory, wp_ite, wp_raise, raise_seq,
    Pc.toss_read]
  refine ⟨err0, fun _ => err0, fun _ => ⟨err0, ?_⟩⟩
  cases hm : s.store.policy.resolve modelId with
  | none => exact err0
  | some m =>
    have hid : Quiet cfg t Anywhere (verifyIdentity cfg .opening) pc s :=
      quiet_verifyIdentity trivial (fun _ => trivial) h.clean.2.2.2
    simp only [wp_bind', wp_pure, wp_discard]
    refine wp_quiet hid (fun p s1 _ g1 i => ?_) fun p s1 _ g1 _ => err g1
    refine (wp_bind' _).2 (wp_mono (fun _ pc' s2 ha => ?_) (fun e pc' s2 ha => ?_) _
      (wp_findModel Pc.at_anywhere _ _))
    swap
    · obtain ⟨⟨q, -, rfl⟩, g2⟩ := ha
      exact err (g1.trans g2)
    obtain ⟨⟨p, hcat, rfl⟩, g2⟩ := ha
    rw [Pc.move_move]
    replace g2 := g1.trans g2
    simp only [wp_sessions, wp_ite, wp_raise, wp_bind', wp_pure]
    refine ⟨err g2, fun _ => err g2, fun hrows => ⟨fun _ => hnone _ _ g2 hcat, fun hfull => ?_⟩⟩
    refine wp_requireClearWallet (fun _ => err g2) fun hr ho => ?_
    have ready : ParkOk cfg (pc.move p) s2
        (.openBids { policy := s.store.policy, model := m, rows := s2.sessions }) :=
      ⟨⟨hl, hr, ho, rfl, not_le.1 (not_or.1 hfull).1, not_le.1 (not_or.1 hfull).2, modelId, hm⟩, rfl⟩
    refine (wp_bind' _).2 ?_
    exact wp_reserve ready g2 rfl (fun e pc' s' hu => hE _ _ _ (hu.trans g2))
      fun plan pc' s' g hpc hpost => hQ plan pc' s' (g2.trans g) hpc hpost

/-! ### Errors without a label -/

/-- Whatever error of the gateway this is, it says nothing about a mutation. -/
def Unlabelled (x : Except Exc α) : Prop := ∀ g, x = .error (.gateway g) → g.outcome = .unknown

/-- A sequence of unlabelled parts is unlabelled. -/
theorem Unlabelled.bind {β : Type} {x : Except Exc α} {f : α → Except Exc β} (hx : Unlabelled x)
    (hf : ∀ a, Unlabelled (f a)) : Unlabelled (x >>= f) := by
  cases x with
  | ok a => exact hf a
  | error e =>
    intro g h
    cases h
    exact hx g rfl

/-- A refusal says nothing of a transaction. -/
theorem unlabelled_refuse (code : Code) (message : String) (status : ℕ) :
    Unlabelled (throw (refuse code message status) : Except Exc α) := by
  intro g h
  cases h
  rfl

/-- What returns raises nothing. -/
theorem unlabelled_ok (a : α) : Unlabelled (.ok a : Except Exc α) := fun _ h => by cases h

/-- Nor does a field that cannot be read. -/
theorem unlabelled_readable (truth : Json) (key : String) : Unlabelled (readable truth key) := by
  unfold readable
  split
  · exact fun _ h => by cases h
  · split
    · exact fun _ h => by cases h
    · exact fun _ h => by cases h
    · exact fun _ h => by cases h

/-- The errors of `_validate_truth` say nothing about a mutation. -/
theorem unlabelled_validTruth (identity : Option Identity) (row : Row) (truth : Json) :
    Unlabelled (validTruth identity row truth) := by
  have fields : ∀ keys : List String, Unlabelled (keys.forM fun key => do
      if ¬ (← readable truth key) then
        throw (refuse .sessionMismatch "Session state is incomplete or invalid")) := by
    intro keys
    induction keys with
    | nil => exact unlabelled_ok _
    | cons key rest ih =>
      refine Unlabelled.bind (.bind (unlabelled_readable truth key) fun b => ?_) fun _ => ih
      split
      · exact unlabelled_refuse _ _ _
      · exact unlabelled_ok _
  unfold validTruth
  split
  · exact .bind (unlabelled_refuse _ _ _) fun _ => fields _
  · exact fields _

/-- Nor does a number that cannot be read. -/
theorem unlabelled_int (x : Json) : Unlabelled (int x) := by
  unfold int
  cases x.toInt with
  | ok n => exact fun _ h => by cases h
  | error e => cases e <;> exact fun _ h => by cases h

/-- Nor does a field that is missing. -/
theorem unlabelled_item (x : Json) (key : String) : Unlabelled (item x key) := by
  unfold item
  split
  · exact fun _ h => by cases h
  · exact fun _ h => by cases h

/-! ### The POST and what follows it -/

/-- What an opening POST returns does not depend on its arguments. -/
theorem request_openSession (b : String) (d : ℕ) (limit : ℤ) (o : ℕ) (a : Answer) :
    request (.openSession b d limit o) a = request (.openSession "" 0 0 0) a := by
  cases a <;> rfl

/-- What the read of a session returns does not depend on its ID. -/
theorem readSession_eq (id : String) (a : Answer) : readSession id a = readSession "" a := by
  cases a <;> rfl

/-- What `submit` knows when it raises: whose copy the record is, and where an error
labelled `notSubmitted` comes from. -/
structure Stranded (pc : Pc) (row : Row) (e : Exc) : Prop where
  label : ∀ g, e = .gateway g → g.outcome = .notSubmitted →
    ∃ i a, pc.place = .woken i a ∧ i.label a = some .notSubmitted
  gateway : (∃ g, e = .gateway g) →
    (∃ r d limit a, pc.place = .woken (.openPost r d limit) a ∧ Kept r row ∧ postedId a = none) ∨
      ∃ r a, pc.place = .woken (.openRead r) a ∧ Kept r row
  copy : (∃ r d limit a, pc.place = .woken (.openPost r d limit) a ∧ SameSession r row ∧
      row.closeOperationId = r.closeOperationId ∧
      (postedId a = none ∧ row.chainId = r.chainId ∨
        ∃ sid, postedId a = some sid ∧ row.chainId = some (lower sid))) ∨
    ∃ r a, pc.place = .woken (.openRead r) a ∧ Kept r row

/-- A record has the IDs that it has. -/
theorem Kept.refl (row : Row) : Kept row row := ⟨⟨rfl, rfl, rfl, rfl⟩, rfl, rfl⟩

/-- The POST raised, or returned no session ID. -/
theorem Stranded.of_post {row : Row} {d : ℕ} {limit : ℤ} {a : Answer} {e : Exc}
    (hpc : pc.place = .woken (.openPost row d limit) a) (hn : postedId a = none)
    (hl : ∀ g, e = .gateway g → g.outcome = .notSubmitted →
      labelOf (request (.openSession "" 0 0 0) a) = some .notSubmitted) : Stranded pc row e where
  label g he hg := ⟨_, a, hpc, hl g he hg⟩
  gateway _ := .inl ⟨row, d, limit, a, hpc, Kept.refl row, hn⟩
  copy := .inl ⟨row, d, limit, a, hpc, (Kept.refl row).1, rfl, .inl ⟨hn, rfl⟩⟩

/-- Something else failed after the POST returned a session ID. -/
theorem Stranded.of_posted {row r : Row} {d : ℕ} {limit : ℤ} {a : Answer} {e : Exc} {sid : String}
    (hpc : pc.place = .woken (.openPost r d limit) a) (hp : postedId a = some sid)
    (hr : SameSession r row) (hc : row.closeOperationId = r.closeOperationId)
    (hid : row.chainId = some (lower sid)) (he : ∀ g, e ≠ .gateway g) : Stranded pc row e where
  label g h := absurd h (he g)
  gateway := fun ⟨g, h⟩ => absurd h (he g)
  copy := .inl ⟨r, d, limit, a, hpc, hr, hc, .inr ⟨sid, hp, hid⟩⟩

/-- The read after the POST failed, or what it returned is not acceptable. -/
theorem Stranded.of_read {row r : Row} {a : Answer} {e : Exc}
    (hpc : pc.place = .woken (.openRead r) a) (hk : Kept r row)
    (hl : ∀ g, e = .gateway g → g.outcome = .notSubmitted →
      labelOf (readSession "" a) = some .notSubmitted) : Stranded pc row e where
  label g he hg := ⟨_, a, hpc, hl g he hg⟩
  gateway _ := .inr ⟨r, a, hpc, hk⟩
  copy := .inr ⟨r, a, hpc, hk⟩

/-- A record that was rewritten twice has them. -/
theorem Kept.trans {a b c : Row} (h : Kept a b) (h' : Kept b c) : Kept a c := by
  obtain ⟨⟨h1, h2, h3, h4⟩, h5, h6⟩ := h
  obtain ⟨⟨h1', h2', h3', h4'⟩, h5', h6'⟩ := h'
  exact ⟨⟨h1'.trans h1, h2'.trans h2, h3'.trans h3, h4'.trans h4⟩, h5'.trans h5, h6'.trans h6⟩

/-- The first has those of the second. -/
theorem Kept.symm {a b : Row} (h : Kept a b) : Kept b a := by
  obtain ⟨⟨h1, h2, h3, h4⟩, h5, h6⟩ := h
  exact ⟨⟨h1.symm, h2.symm, h3.symm, h4.symm⟩, h5.symm, h6.symm⟩

/-- The chain read after the POST leads to a record with the same IDs. -/
theorem wp_openedRow (row : Row) (truth : Json) {Q : Row → Pc → World → Prop}
    {E : Exc → Pc → World → Prop}
    (hE : ∀ e, (∀ g, e = .gateway g → g.outcome = .unknown) → E e pc s)
    (hQ : ∀ row', Kept row row' → (row'.state = .opened ∨ row'.state = .closed ∧
      ∃ n, (item truth "ClosedAt").bind int = .ok n ∧ n ≠ 0) → Q row' pc s) :
    Wp cfg t (openedRow row truth) Q E pc s := by
  have err : ∀ {β : Type} {x : Except Exc β}, Unlabelled x → ∀ e, x = .error e → E e pc s :=
    fun hx e he => hE e fun g hg => hx g (hg ▸ he)
  have field : ∀ key, Unlabelled ((item truth key).bind int) := fun key =>
    (unlabelled_item truth key).bind unlabelled_int
  simp only [openedRow, wp_bind', wp_truthInt, wp_ofExcept, wp_pure]
  refine ⟨fun n hn => ⟨fun endsAt _ => ⟨fun openedAt _ => ⟨fun stake _ => hQ _ ?_ ?_,
    err (unlabelled_item _ _)⟩, err (unlabelled_int _)⟩, err (field _)⟩, err (field _)⟩
  · exact Kept.refl row
  · by_cases h0 : n = 0
    · exact .inl (if_neg (not_not.2 h0))
    · exact .inr ⟨if_pos h0, n, hn, h0⟩

/-- The read after the opening POST obtains the session, or leaves its record stranded. -/
theorem wp_readOpened {row : Row} {sid : String} (h : AwaitOk cfg pc s (.openRead row))
    (hb : pc.begun = none) {Q : Row → Pc → World → Prop} {E : Row × Exc → Pc → World → Prop}
    (hE : ∀ p s' row e, Grows s s' → Stranded (pc.move p) row e → E (row, e) (pc.move p) s')
    (hQ : ∀ p s' row, Grows s s' → p.Obtained s' row → Q row (pc.move p) s') :
    Wp cfg t (readOpened row sid) Q E pc s := by
  simp only [readOpened, wp_bind', wp_suspend, wp_mapError, wp_ofExcept, grows_iff, next_await,
    readSession_eq]
  refine ⟨⟨h, hb⟩, fun s1 a g1 _ => ⟨fun truth ht => ?_, fun e he => ?_⟩⟩
  · have err : ∀ {row' e s'}, Grows s s' → Kept row row' →
        (∀ g, e = .gateway g → g.outcome = .unknown) →
        E (row', e) (pc.move (.woken (.openRead row) a)) s' := fun gs hk hu =>
      hE _ _ _ _ gs (.of_read rfl hk fun g hg hns => by
        cases (hu g hg).symm.trans hns)
    refine (wp_validateTruth _ _).2 ⟨fun _ => ?_, fun e he => err g1 (Kept.refl _) fun g hg =>
      unlabelled_validTruth _ _ _ g (hg ▸ he)⟩
    refine (wp_bind' _).2 ((wp_mapError _ _).2 (wp_openedRow _ _ (fun e he => err g1 (Kept.refl _) he) fun row1 hk hs => ?_))
    simp only [wp_bind', wp_mapError, wp_policy, wp_putRow, wp_ite, wp_raise, wp_pure, Pc.toss_read, Pc.toss_write]
    generalize hr : (if inadmissible s1.store.policy row1 = true then _ else row1) = row2
    have hk2 : Kept row row2 := by
      rw [← hr]
      split
      · exact hk.trans (Kept.refl _)
      · exact hk
    refine ⟨err g1 hk fun _ h => (by cases h), err g1 hk2 fun _ h => (by cases h),
      ⟨h.1, row, a, rfl, hk2, ?_⟩, fun _ => ?_, fun hd => ?_⟩
    · rw [← hr]
      split
      · exact .inr (.inl rfl)
      · rcases hs with ho | ⟨hc, n, hn, h0⟩
        · exact .inl ho
        · refine .inr (.inr ⟨hc, _, a, row, n, rfl, rfl, hk.1.1.symm, ?_, h0⟩)
          simp [closedAt, ht, hn]
    · refine err (by simp [g1]) hk2 fun g hg => ?_
      cases hg
      rfl
    · refine hQ _ _ _ (by simp [g1]) ⟨⟨row, a, rfl, hk2⟩, row?_put_self _ _ _ _, ?_⟩
      rw [← hr] at hd ⊢
      split at hd
      · exact absurd rfl hd
      · rename_i hin
        rw [if_neg hin]
        exact hs.imp id And.left
  · refine hE _ _ _ _ g1 (.of_read rfl (Kept.refl _) fun g hg hns => ?_)
    simp [labelOf, he, hg, hns]

/-- The POST with its read obtains the session, or leaves its record stranded. -/
theorem wp_submit {plan : Plan} (h : ParkOk cfg pc s (.openPost plan.row plan.duration plan.limit))
    {Q : Row → Pc → World → Prop} {E : Row × Exc → Pc → World → Prop}
    (hE : ∀ p s' row e, Grows s s' → Stranded (pc.move p) row e → E (row, e) (pc.move p) s')
    (hQ : ∀ p s' row, Grows s s' → p.Obtained s' row → Q row (pc.move p) s') :
    Wp cfg t (submit plan) Q E pc s := by
  simp only [submit, wp_bind', wp_suspend, wp_mapError, wp_ofExcept, grows_iff, next_await,
    request_openSession]
  refine ⟨h, fun s1 a g1 _ => ⟨fun data hd => ?_, fun e he => hE _ _ _ _ g1 ?_⟩⟩
  · split
    · rename_i hn
      refine hE _ _ _ _ g1 (.of_post rfl (by simp [postedId, hd, hn]) fun g he hg => ?_)
      cases he
      cases hg
    · rename_i sid hs
      have hp : postedId a = some sid := by simp [postedId, hd, hs]
      simp only [wp_ite, raise_seq, wp_raise, wp_bind', wp_mapError, wp_putRow, Pc.toss_write]
      refine ⟨fun _ => hE _ _ _ _ g1 (.of_posted rfl hp ⟨rfl, rfl, rfl, rfl⟩ rfl rfl fun _ h => by cases h),
        fun _ => ⟨hE _ _ _ _ g1 (.of_posted rfl hp ⟨rfl, rfl, rfl, rfl⟩ rfl rfl fun _ h => by cases h),
          ⟨h.1.1, h.1.2.2.1, _, _, _, a, sid, rfl, ⟨rfl, rfl, rfl, rfl⟩, rfl, hp, rfl⟩, ?_⟩⟩
      refine wp_readOpened ?_ rfl (fun p s2 row e g hst => ?_) fun p s2 row g ho => ?_
      · exact ⟨h.1.1, row?_put_self _ _ _ _, h.1.2.2.1, _, _, _, a, sid, rfl, ⟨rfl, rfl, rfl, rfl⟩, rfl,
          hp, rfl⟩
      · exact hE p s2 row e (Grows.trans (by simp [g1]) g) hst
      · exact hQ p s2 row (Grows.trans (by simp [g1]) g) ho
  · refine .of_post rfl (by simp [postedId, he]) fun g hg hns => ?_
    simp [labelOf, he, hg, hns]

/-- The handlers store the record as it is in memory, and ask for the next provider only if
there is an attempt left. -/
theorem wp_openingFailed (h : pc.At A) (hl : pc.lock = true) (last : Bool) {row : Row} {e : Exc}
    (hs : Stranded pc row e) :
    Wp cfg t (openingFailed last (row, e)) (fun r pc' s' => (r = none ∧ last = false) ∧ After A pc s pc' s')
      (fun _ => After A pc s) pc s := by
  have raised : ∀ (e : Exc) p s', A p → Grows s s' →
      Wp cfg t (Coro.raise e : Op (Option (Option Row)))
        (fun r pc' s' => (r = none ∧ last = false) ∧ After A pc s pc' s') (fun _ => After A pc s)
        (pc.move p) s' := fun _ p s' hp g => After.move hp g
  have broken : (∀ g, e ≠ .gateway g) → Wp cfg t
      (do putRow .openBroken { row with state := .openUnknown }; Coro.raise e : Op (Option (Option Row)))
      (fun r pc' s' => (r = none ∧ last = false) ∧ After A pc s pc' s') (fun _ => After A pc s) pc s :=
    fun _ => (wp_bind' _).2 (wp_quiet (quiet_putRow h ⟨hl, rfl, hs.copy⟩ rfl)
      (fun p s1 hp g1 _ => raised e p s1 hp g1) fun p s1 hp g1 _ => After.move hp g1)
  cases e with
  | gateway g =>
    rw [openingFailed]
    refine (wp_ite _ _ _).2 ⟨fun _ => (wp_bind' _).2 (h.refl s), fun _ => ?_⟩
    have hw : RowWrite cfg pc s (withError (failedOpening row g) (.gateway g) s.now) .openFailed := by
      refine ⟨hl, ?_, hs.gateway ⟨g, rfl⟩⟩
      by_cases hg : g.outcome = .notSubmitted
      · exact .inr ⟨if_pos hg, hs.label g rfl hg⟩
      · exact .inl (if_neg hg)
    refine (wp_bind' _).2 (wp_quiet (quiet_markError h hw fun _ => rfl) (fun p s1 hp g1 row' => ?_)
      fun p s1 hp g1 _ => After.move hp g1)
    refine (wp_ite _ _ _).2 ⟨fun _ => (wp_bind' _).2 (wp_quiet (quiet_coolProvider (Pc.at_move hp) _)
      (fun q s2 hq g2 _ => ?_) fun q s2 hq g2 _ => After.move hq (g1.trans g2)),
      fun _ => raised _ p s1 hp g1⟩
    refine (wp_ite _ _ _).2 ⟨fun hlast => ⟨⟨rfl, ?_⟩, After.move hq (g1.trans g2)⟩,
      fun _ => raised _ q s2 hq (g1.trans g2)⟩
    simpa using hlast
  | _ => exact broken fun _ h => by cases h

/-- Where an attempt to open a session ends: after the read back of the session, at the
catalogue if the pool is full, anywhere if the next provider is to be tried. -/
def Concluded (last : Bool) : Option (Option Row) → Place → World → Prop
  | some (some row), p, s => p.Obtained s row
  | some none, p, _ => p.catalog = true
  | none, _, _ => last = false

/-- One round of an opening ends with the lock and a conclusion. -/
theorem wp_openRound (h : pc.At Anywhere) (hl : pc.lock = true) (modelId : String) (last : Bool)
    {Q : Option (Option Row) → Pc → World → Prop} {E : Exc → Pc → World → Prop}
    (hE : ∀ e pc' s', Unlocks pc s pc' s' → E e pc' s')
    (hQ : ∀ r p s', Grows s s' → Concluded last r p s' → Q r (pc.move p) s') :
    Wp cfg t (openRound cfg modelId last) Q E pc s := by
  refine (wp_bind' _).2 (wp_preflight hl h modelId hE (fun p s' g hp => hQ _ _ _ g hp) ?_)
  intro plan pc' s1 g1 hpc hpost
  have submitted : Wp cfg t (do return some (some (← submit plan)) : OpE (Row × Exc) _) Q
      (fun e => Wp cfg t (openingFailed last e) Q E) pc' s1 := by
    refine (wp_bind' _).2 (wp_submit hpost (fun p s2 row e g2 hs => ?_) fun p s2 row g2 hp => ?_)
    · rw [hpc] at hs ⊢
      refine wp_mono (fun r pc3 s3 hr => ?_) (fun e pc3 s3 hr => ?_) _
        (wp_openingFailed (A := Anywhere) Pc.at_anywhere hl last hs)
      · obtain ⟨⟨rfl, hlast⟩, ⟨q, -, rfl⟩, g3⟩ := hr
        exact hQ _ _ _ ((g1.trans g2).trans g3) hlast
      · obtain ⟨⟨q, -, rfl⟩, g3⟩ := hr
        exact hE _ _ _ (.move hl ((g1.trans g2).trans g3))
    · rw [hpc]
      exact hQ _ _ _ (g1.trans g2) hp
  exact (wp_tryCatch _).2 submitted

/-- Where `_open` ends without an exception. -/
def Settlement (r : Option Row) (p : Place) (s : World) : Prop :=
  match r with
  | some row => p.Obtained s row
  | none => p.catalog = true

/-- A settlement is a matter of the store. -/
theorem Settlement.of_store {r : Option Row} {p : Place} {s s' : World} (hs : s'.store = s.store)
    (h : Settlement r p s) : Settlement r p s' := by
  cases r with
  | some row =>
    obtain ⟨hp, hrow, hst⟩ := h
    refine ⟨hp, ?_, hst⟩
    rwa [World.row?, hs]
  | none => exact h

/-- So do all rounds, by induction on those that are left. -/
theorem wp_openRounds (modelId : String) (n : ℕ) (hn : n ≠ 0) : ∀ {pc s}, pc.At Anywhere →
    pc.lock = true → Wp cfg t (openRounds cfg modelId n)
      (fun r pc' s' => Settlement r pc'.place s' ∧ Unlocks pc s pc' s') (fun _ => Unlocks pc s) pc s := by
  induction n with
  | zero => exact absurd rfl hn
  | succ n ih =>
    intro pc s h hl
    refine (wp_bind' _).2 (wp_openRound h hl modelId _ (fun _ _ _ hu => hu) fun r p s1 g1 hr => ?_)
    match r, hr with
    | some (some row), hp => exact ⟨hp, .move hl g1⟩
    | some none, hp => exact ⟨hp, .move hl g1⟩
    | none, hlast =>
      have hn' : n ≠ 0 := of_decide_eq_false hlast
      refine wp_mono (fun r pc' s' hr => ?_) (fun e pc' s' hr => ?_) _
        (ih hn' (pc.at_anywhere (p := p)) (s := s1) hl)
      · exact ⟨hr.1, Unlocks.trans g1 hr.2⟩
      · exact Unlocks.trans g1 hr

/-- **An opening** takes the lock, settles and gives it back. -/
theorem wp_open (h : pc.At Anywhere) (hl : pc.lock = false) (modelId : String) :
    Wp cfg t (_open cfg modelId) (fun r pc' s' => Settlement r pc'.place s' ∧ After Anywhere pc s pc' s')
      (fun _ => After Anywhere pc s) pc s :=
  wp_withLock Settlement.of_store h hl fun _ _ _ => wp_openRounds modelId 3 (by decide) Pc.at_lock rfl

/-! ### Openers -/

/-- Without an error there is no backoff to wait for. -/
theorem wp_openingError (modelId : String) {Q : Option GatewayError → Pc → World → Prop}
    {E : Exc → Pc → World → Prop} (hE : E .storage pc s) (hsome : ∀ g, Q (some g) pc s)
    (hnone : Due s modelId → Q none pc s) : Wp cfg t (openingError modelId) Q E pc s := by
  refine (wp_bind' _).2 ((wp_fetch _ _).2 ⟨by simpa using hE, ?_⟩)
  cases hf : s.store.openingFailures modelId with
  | none => exact hnone fun f hf' => (nomatch hf.symm.trans hf')
  | some f =>
    simp only [wp_bind', wp_policy, wp_now, wp_ite, wp_pure, Pc.toss_read]
    refine ⟨hE, fun _ => hsome _, fun hd => hnone fun f' hf' hr => ?_⟩
    obtain rfl := Option.some.inj (hf.symm.trans hf')
    exact Rat.not_lt.1 fun hlt => hd ⟨hr, hlt⟩

/-- The task of an opener is quiet. -/
theorem quiet_openModel (h : pc.At Anywhere) (hl : pc.lock = false) {modelId : String}
    {revision : ℕ} (ht : pc.Opening modelId revision) :
    Quiet cfg t Anywhere (openModel cfg modelId revision) pc s := by
  refine (wp_bind' _).2 ((wp_attempt _).2 (wp_mono (fun r pc' s1 ha => ?_) (fun e pc' s1 ha => ?_) _
    (wp_open h hl modelId)))
  · obtain ⟨hp, ⟨p, -, rfl⟩, g1⟩ := ha
    have ok : EventOk cfg (pc.move p) s1 (.openingSucceeded modelId) := by
      refine ⟨⟨revision, ht⟩, ?_⟩
      cases r with
      | some row => exact .inl ⟨row, hp⟩
      | none => exact .inr hp
    exact (quiet_store (A := Anywhere) Pc.at_anywhere ok rfl).later g1
  · obtain ⟨⟨p, -, rfl⟩, g1⟩ := ha
    have raised : ∀ (e : Exc) s', Quiet cfg t Anywhere (Coro.raise e : Op Unit) (pc.move p) s' :=
      fun e s' => quiet_raise Pc.at_anywhere _
    cases e with
    | gateway g =>
      refine Quiet.later (A := Anywhere) ?_ g1
      refine .ite (fun hg => ?_) fun _ => raised _ s1
      rw [backsOff, Bool.and_eq_true, decide_eq_true_eq] at hg
      simp only [Quiet, wp_bind', wp_fetch, wp_now, wp_store, wp_raise, Pc.toss_read, Pc.toss_write]
      refine ⟨Pc.at_anywhere.refl s1, Pc.at_anywhere.refl s1, ⟨ht, ?_, rfl, hg.2⟩, ?_⟩
      · show _ = min (failuresOf s1 modelId revision + 1) 8
        unfold failuresOf
        cases s1.store.openingFailures modelId with
        | none => rfl
        | some f =>
          by_cases hr : f.revision = revision
          · simp [hr]
          · simp [hr]
      · exact .move trivial (by simp)
    | _ => exact (raised _ s1).later g1

/-- An opener is spawned when its model has none and no backoff is in force. -/
theorem quiet_startOpen (h : pc.At A) {modelId : String} (free : s.memory.opening modelId = none)
    (due : Due s modelId) : Quiet cfg t A (startOpen modelId) pc s := by
  obtain ⟨hu, -, -, hb⟩ := h.clean
  have hpc : ∀ n, (((pc.emit (.uuid n)).emit (.spawn n (.opener modelId s.store.policy.revision))).emit
      (.opener modelId n)) = pc := by
    intro n
    cases pc
    simp_all [Pc.emit]
  simp only [Quiet, startOpen, wp_bind', wp_policy, wp_spawn, wp_perform, wp_pure, Pc.toss_read]
  refine ⟨h.refl s, ⟨rfl, hb, free, rfl, due⟩, ⟨_, rfl⟩, ?_⟩
  simp only [next_emit, hpc]
  exact h.after (by simp)

/-- The callback of an opener that has ended. -/
theorem quiet_openerDone (h : pc.At A) {handle opener : ℕ} {modelId : String}
    (ht : pc.task = some (handle, .openerDone opener modelId)) :
    Quiet cfg t A (openerDone opener modelId) pc s := by
  refine (wp_bind' _).2 ((wp_memory _).2 ((wp_ite _ _ _).2 ⟨fun ho => ?_, fun _ => h.refl s⟩))
  exact quiet_perform h ⟨opener, ho, .inr ⟨handle, ht⟩⟩ rfl

/-- The search for a session that is hot is quiet. -/
theorem quiet_anyHot (h : pc.At A) (modelId : String) (rows : List Row) :
    Quiet cfg t A (anyHot cfg modelId rows) pc s := by
  induction rows with
  | nil => exact quiet_pure h _
  | cons row rest ih =>
    simp only [anyHot, Quiet, wp_bind', wp_ite, wp_policy, wp_now, wp_pure, Pc.toss_read]
    exact ⟨fun _ => ⟨h.refl s, fun _ => h.refl s, fun _ => ih⟩, fun _ => ih⟩

/-- So is the question whether to wait for one. -/
theorem quiet_canWaitForHot (h : pc.At A) (modelId : String) (g : GatewayError) :
    Quiet cfg t A (canWaitForHot cfg modelId g) pc s :=
  .ite (fun _ => .bind (quiet_fetch h _) fun _ _ _ hp _ => quiet_anyHot (Pc.at_move hp) _ _)
    fun _ => quiet_pure h _

end MorpheusGateway
