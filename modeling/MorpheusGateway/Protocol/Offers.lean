/-
# What an opener tries

An opener ranks the bids of its model, reads the best of them again, checks the wallet and the
settings, and sends the POST of it.  When the provider declines, the opener cools that provider
down and starts over, up to three times.  `powers` asks of each POST that it is of such a bid
(`SiteOk`), which takes following the bid from the ranking to the POST.
-/

import MorpheusGateway.Protocol.Powers

namespace MorpheusGateway

open Contract Coro Sessions

variable {cfg : Config} {R : Agent → Prop} {t : ℕ} {a : Agent} {s : World}

set_option synthInstance.maxSize 4000

/-! ### The ranking -/

/-- What a candidate is of the entry that it was made from. -/
structure RankedAs (s : World) (modelId : String) (entry : Json) (c : Candidate) : Prop where
  id : c.id = (entry.get "Bid").get "Id"
  provider : c.provider = (entry.get "Bid").lowerField "Provider"
  eligible : c.eligible = true ↔ Selectable s modelId entry

/-- The candidates are those of the bids, by the settings and the cooldowns as they are stored. -/
theorem powers_rank (modelId : String) (bids : List Json) {Q : List Candidate → Agent → World → Prop}
    {E : Exc → Agent → World → Prop} (hE : ∀ e, E e a s)
    (hQ : ∀ cs, List.Forall₂ (RankedAs s modelId) bids cs → Q cs a s) :
    powers.wp (gateway cfg) t (rank modelId s.store.policy bids) Q E a s := by
  induction bids generalizing Q with
  | nil => exact hQ [] .nil
  | cons entry rest ih =>
    unfold rank
    simp only [wp_bind', cooldown, powers_fetch, now, wp_get, wp_pure, wp_ofExcept]
    refine ⟨hE _, fun price hp => ih fun cs hcs => hQ _ (.cons ⟨rfl, rfl, ?_⟩ hcs), fun e _ => hE e⟩
    simp only [Selectable, Bool.and_eq_true, Bool.not_eq_true', decide_eq_true_eq, and_assoc]
    refine and_congr_right fun _ => and_congr_right fun _ => ⟨fun h => ⟨price, hp, h⟩, ?_⟩
    rintro ⟨price', hp', h⟩
    rw [hp] at hp'
    obtain rfl := Except.ok.inj hp'
    exact h

/-- The first eligible candidate is of the first eligible entry. -/
theorem first_eligible {modelId : String} {bids : List Json} {cs rest : List Candidate} {c : Candidate}
    (h : List.Forall₂ (RankedAs s modelId) bids cs) (hc : cs.filter Candidate.eligible = c :: rest) :
    ∃ before entry after, bids = before ++ entry :: after ∧ (∀ e ∈ before, ¬Selectable s modelId e) ∧
      Selectable s modelId entry ∧ RankedAs s modelId entry c := by
  induction h with
  | nil => cases hc
  | @cons entry c' bids cs hr _ ih =>
    rw [List.filter_cons] at hc
    split_ifs at hc with he
    · obtain ⟨rfl, -⟩ := List.cons.inj hc
      exact ⟨[], entry, bids, rfl, fun _ h => (by cases h), hr.eligible.1 he, hr⟩
    · obtain ⟨before, entry', after, rfl, hb, hel, hr'⟩ := ih hc
      refine ⟨entry :: before, entry', after, rfl, fun e hm => ?_, hel, hr'⟩
      rcases List.mem_cons.1 hm with rfl | hm
      · exact fun h => he (hr.eligible.2 h)
      · exact hb e hm

/-! ### The bid -/

/-- The bid was the best of the ranking, and this is what was read of it. -/
structure Picked (l : Preflight) (bidId provider : String) (bid : Json) (a : Agent) : Prop where
  ranking : ∃ x rated entry, a.ranking = some (.openBids l, x) ∧ readBids l.model.id x = .ok rated ∧
    entry ∈ rated ∧ ((entry.get "Bid").get "Id").toStr = bidId ∧
    (entry.get "Bid").lowerField "Provider" = provider
  offer : ∃ y, a.offer = some (l, bidId, y) ∧ readBid bidId y = .ok bid
  model : bid.lowerField "ModelAgentId" = l.model.id
  provider : bid.lowerField "Provider" = provider
  present : int (bid.getD "DeletedAt" (.num 1)) = .ok 0

/-- The task has picked this bid. -/
def Picks (R : Agent → Prop) (l : Preflight) (bidId provider : String) (bid : Json) (a : Agent) : Prop :=
  R a ∧ Picked l bidId provider bid a

/-- A pick is a matter of the ranking and the offer. -/
theorem Picked.congr {l : Preflight} {bidId provider : String} {bid : Json} {b : Agent}
    (h : Picked l bidId provider bid a) (hr : b.ranking = a.ranking) (ho : b.offer = a.offer) :
    Picked l bidId provider bid b :=
  ⟨by rw [hr]; exact h.ranking, by rw [ho]; exact h.offer, h.model, h.provider, h.present⟩

/-- No event changes the ranking, the bid or the records that were sent. -/
theorem Agent.next_walk (a : Agent) (e : Event) : (a.next (.emit e)).ranking = a.ranking ∧
    (a.next (.emit e)).offer = a.offer ∧ (a.next (.emit e)).sent = a.sent := by
  cases e with
  | key | cooldown | walletScan | finish => exact ⟨rfl, rfl, rfl⟩
  | _ => exact ⟨rfl, rfl, rfl⟩

/-- An await that needs no power neither selects a bid nor sends one. -/
theorem Site.walk_of_power {i : Site} (hi : i.power = none) :
    i.selects = false ∧ i.sends = none ∧ ∀ x, i.offers x = none := by
  cases i with
  | openBid | openPost => cases hi
  | _ => exact ⟨rfl, rfl, fun _ => rfl⟩

instance [hK : Keeping R] (l : Preflight) (bidId provider : String) (bid : Json) :
    Keeping (Picks R l bidId provider bid) where
  emit {a} e he h := ⟨hK.emit e he h.1, h.2.congr (a.next_walk e).1 (a.next_walk e).2.1⟩

instance [hR : Awaits R] (l : Preflight) (bidId provider : String) (bid : Json) :
    Awaits (Picks R l bidId provider bid) where
  ne h := hR.ne h.1
  park {a} i hi h := ⟨hR.park i hi h.1, by
    obtain ⟨selects, sends, -⟩ := Site.walk_of_power hi
    refine h.2.congr ?_ (if_neg (by simp [sends]))
    show (if i.sends.isSome then none else if i.selects then a.woken else a.ranking) = a.ranking
    rw [sends, selects]
    rfl⟩
  wake {a} i x hi h := ⟨hR.wake i x hi h.1, h.2.congr rfl (by
    show (i.offers x).or a.offer = a.offer
    rw [(Site.walk_of_power hi).2.2 x, Option.none_or])⟩

section Bids

variable [Keeping R] [hR : Awaits R] [hs : Grants R .selectBid]

omit [Keeping R] in
/-- The bid of an opening is the best of the ranking, read again. -/
theorem powers_selectBid {l : Preflight} (h : R a) {Q : String × String × Json → Agent → World → Prop}
    {E : Exc → Agent → World → Prop} (hE : ∀ e a s, R a → E e a s)
    (hQ : ∀ bidId provider bid a s, Picks R l bidId provider bid a → Q (bidId, provider, bid) a s) :
    powers.wp (gateway cfg) t (selectBid l) Q E a s := by
  unfold selectBid candidates
  refine (wp_bind' _).2 ((wp_bind' _).2 (powers_suspend rfl h fun x a s reads => ?_))
  simp only [wp_bind', wp_ofExcept, policy, powers_fetch]
  refine ⟨fun rated hrated => ⟨hE _ a s reads.task, powers_rank _ _ (fun e => hE e a s reads.task)
    fun cs hcs => ?_⟩, fun e _ => hE e a s reads.task⟩
  split
  · exact hE _ a s reads.task
  · rename_i c rest hc
    obtain ⟨before, entry, after, rfl, hb, hel, hr⟩ := first_eligible hcs hc
    refine (wp_ite _ _ _).2 ⟨fun _ => hE _ a s reads.task, fun _ => (wp_bind' _).2 ⟨⟨fun k hk => ?_,
      hR.ne reads.task, x, _, reads.woken, hrated, before, entry, after, rfl, hb, hel, by rw [hr.id]⟩,
      fun s' y _ _ => ?_⟩⟩
    · obtain rfl := Option.some.inj hk
      exact hs.may reads.task
    · have task := hs.wake (.openBid l c.id.toStr) y rfl (hs.park (.openBid l c.id.toStr) rfl reads.task)
      refine (wp_bind' _).2 ((wp_ofExcept _).2 ⟨fun bid hbid => ?_, fun e _ => hE e _ _ task⟩)
      refine (wp_ite _ _ _).2 ⟨fun _ => hE _ _ _ task, fun hm => ?_⟩
      refine (wp_bind' _).2 ((wp_ofExcept _).2 ⟨fun n hn => ?_, fun e _ => hE e _ _ task⟩)
      refine (wp_ite _ _ _).2 ⟨fun _ => hE _ _ _ task, fun hp => ?_⟩
      obtain ⟨hn0, hp⟩ := not_or.1 hp
      refine hQ _ _ _ _ _ ⟨task, ⟨x, _, entry, reads.woken, hrated, List.mem_append_right _
        List.mem_cons_self, by rw [hr.id], ?_⟩, ⟨y, rfl, hbid⟩, not_not.1 hm, rfl, ?_⟩
      · rw [not_not.1 hp, hr.provider]
      · rw [hn, not_not.1 hn0]

omit [Keeping R] hR hs in
/-- A record of the picked bid is offered while the settings are those of the preflight. -/
theorem Picked.offered {l : Preflight} {bidId provider : String} {bid : Json} {row : Row}
    (h : Picked l bidId provider bid a) (hb : row.bid = bidId) (hp : row.provider = provider)
    (hm : row.model = l.model.id) (hr : s.store.policy.revision = l.policy.revision)
    (permits : s.store.policy.providers.permits provider = true)
    (unpaused : s.store.policy.paused = false) (running : s.memory.maintenance = false) :
    Offered a s row := by
  obtain ⟨⟨x, rated, entry, ranking, hrated, hm', hid, hprov⟩, ⟨y, offer, hbid⟩, model, provider, present⟩ := h
  subst hb hp
  exact ⟨l, x, y, rated, entry, bid, ranking, hrated, hm', hid, hprov, offer, hbid,
    model.trans hm.symm, provider, present, hm.symm, hr.symm, permits, unpaused, running⟩

omit [Keeping R] in
/-- The preflight ends with the record of an offered bid. -/
theorem powers_reserve {l : Preflight} (h : R a) {Q : Plan → Agent → World → Prop}
    {E : Exc → Agent → World → Prop} (hE : ∀ e a s, R a → E e a s)
    (hQ : ∀ plan a s, R a → Offered a s plan.row → Q plan a s) :
    powers.wp (gateway cfg) t (reserve l) Q E a s := by
  unfold reserve
  refine (wp_bind' _).2 (powers_selectBid h hE fun bidId provider bid a s picks => ?_)
  have err : ∀ (e : Exc) (a : Agent) (s : World), Picks R l bidId provider bid a → E e a s :=
    fun e a s h => hE e a s h.1
  refine (wp_bind' _).2 (Keeps.then picks (fun _ a s picks => ?_) err)
  refine (wp_bind' _).2 (Keeps.then picks (fun balances a s picks => ?_) err)
  refine (wp_bind' _).2 (Keeps.then picks (fun estimate a s picks => ?_) err)
  refine (wp_bind' _).2 (Keeps.then picks (fun _ a s picks => ?_) err)
  refine (wp_bind' _).2 (Keeps.then picks (fun stakes a s picks => ?_) err)
  refine (wp_bind' _).2 (Keeps.then picks (fun staked a s picks => ?_) err)
  dsimp only
  refine (wp_ite _ _ _).2 ⟨fun _ => err _ a s picks, fun _ => ?_⟩
  simp only [wp_bind', policy, powers_fetch, memory, wp_get, wp_pure]
  refine ⟨err _ a s picks, (wp_ite _ _ _).2 ⟨fun _ => err _ a s picks, fun hc => ?_⟩⟩
  obtain ⟨revision, hc⟩ := not_or.1 hc
  obtain ⟨permits, hc⟩ := not_or.1 hc
  obtain ⟨running, unpaused⟩ := not_or.1 hc
  have offered : ∀ {row : Row} {s' : World}, row.bid = bidId → row.provider = provider →
      row.model = l.model.id → s'.store.policy = s.store.policy →
      s'.memory.maintenance = s.memory.maintenance → Offered a s' row := by
    intro row s' hb hp hm hs hr
    exact picks.2.offered hb hp hm (by rw [hs]; exact not_not.1 revision)
      (by rw [hs]; exact not_not.1 permits) (by rw [hs]; simpa using unpaused)
      (by rw [hr]; simpa using running)
  simp only [wp_bind', powers_uuid, now, wp_get, wp_pure, powers_putRow, powers_event]
  exact ⟨err _ a _ picks, hQ _ _ _ picks.1 (offered rfl rfl rfl rfl rfl),
    hQ _ _ _ picks.1 (offered rfl rfl rfl rfl rfl)⟩

/-- What the loop of `_open` hands to a POST is offered. -/
theorem powers_preflight {modelId : String} (h : R a) {Q : Option Plan → Agent → World → Prop}
    {E : Exc → Agent → World → Prop} (hE : ∀ e a s, R a → E e a s)
    (hnone : ∀ a s, R a → Q none a s)
    (hQ : ∀ plan a s, R a → Offered a s plan.row → Q (some plan) a s) :
    powers.wp (gateway cfg) t (preflight cfg modelId) Q E a s := by
  unfold preflight
  refine (wp_bind' _).2 (Keeps.then h (fun p a s h => ?_) hE)
  refine (wp_bind' _).2 (Keeps.then h (fun paused a s h => ?_) hE)
  refine (wp_ite _ _ _).2 ⟨fun _ => hE _ a s h, fun _ => ?_⟩
  refine (wp_bind' _).2 (Keeps.then h (fun m a s h => ?_) hE)
  refine (wp_bind' _).2 (Keeps.then h (fun _ a s h => ?_) hE)
  refine (wp_bind' _).2 (Keeps.then h (fun _ a s h => ?_) hE)
  refine (wp_bind' _).2 (Keeps.then h (fun rows a s h => ?_) hE)
  refine (wp_ite _ _ _).2 ⟨fun _ => hE _ a s h, fun _ => ?_⟩
  refine (wp_ite _ _ _).2 ⟨fun _ => hnone a s h, fun _ => ?_⟩
  refine (wp_bind' _).2 (Keeps.then h (fun _ a s h => ?_) hE)
  exact (wp_bind' _).2 (powers_reserve h hE fun plan a s h offered => hQ plan a s h offered)

end Bids

/-! ### The POST -/

/-- The task has sent these records. -/
def Sent (R : Agent → Prop) (rows : List Row) (a : Agent) : Prop := R a ∧ a.sent = rows

/-- The task has sent these records, and cooled down the provider of the last. -/
def Ready (R : Agent → Prop) (rows : List Row) (a : Agent) : Prop :=
  Sent R rows a ∧ ∀ r ∈ rows.head?, (r.model, r.provider) ∈ a.cooled

/-- What was cooled down stays so until the next POST. -/
theorem Agent.cooled_emit (a : Agent) (e : Event) : a.cooled ⊆ (a.next (.emit e)).cooled := by
  cases e with
  | cooldown => exact List.subset_cons_self _ _
  | key | walletScan | finish => exact List.Subset.refl _
  | _ => exact List.Subset.refl _

section Sending

variable [hK : Keeping R] [hR : Awaits R] (rows : List Row)

instance : Keeping (Sent R rows) where
  emit {a} e he h := ⟨hK.emit e he h.1, (a.next_walk e).2.2.trans h.2⟩

instance : Keeping (Ready R rows) where
  emit {a} e he h := ⟨Keeping.emit e he h.1, fun r hr => a.cooled_emit e (h.2 r hr)⟩

omit hK hR in

/-- Only a POST is sent. -/
theorem sent_park {i : Site} (hi : i.sends = none) (h : a.sent = rows) :
    (a.next (.park i)).sent = rows := by
  show i.sends.toList ++ a.sent = rows
  rw [hi, h]
  rfl

omit hK hR in

/-- Waiting cools no provider down. -/
theorem cooled_park {i : Site} (hi : i.sends = none) : (a.next (.park i)).cooled = a.cooled :=
  if_neg (by simp [hi])

instance : Awaits (Sent R rows) where
  ne h := hR.ne h.1
  park i hi h := ⟨hR.park i hi h.1, sent_park rows (Site.walk_of_power hi).2.1 h.2⟩
  wake i x hi h := ⟨hR.wake i x hi h.1, h.2⟩

instance : Awaits (Ready R rows) where
  ne h := hR.ne h.1.1
  park i hi h := ⟨Awaits.park i hi h.1, by
    rw [cooled_park (Site.walk_of_power hi).2.1]
    exact h.2⟩
  wake i x hi h := ⟨Awaits.wake i x hi h.1, h.2⟩

omit hK hR in
/-- Selecting a bid sends nothing. -/
theorem Site.sends_of_select {i : Site} (hi : i.power = some .selectBid) : i.sends = none := by
  cases i with
  | openPost => cases hi
  | _ => rfl

instance [hs : Grants R .selectBid] : Grants (Ready R rows) .selectBid where
  may h := hs.may h.1.1
  park i hi h := ⟨⟨hs.park i hi h.1.1, sent_park rows (Site.sends_of_select hi) h.1.2⟩, by
    rw [cooled_park (Site.sends_of_select hi)]
    exact h.2⟩
  wake i x hi h := ⟨⟨hs.wake i x hi h.1.1, h.1.2⟩, h.2⟩

/-- A record of the same model and provider. -/
def Alike (row row' : Row) : Prop := row'.model = row.model ∧ row'.provider = row.provider

omit hK in
/-- What fails after the POST fails with the record that was sent. -/
theorem powers_readOpened {row : Row} {sid : String} (h : Sent R rows a)
    {Q : Row → Agent → World → Prop} {E : Row × Exc → Agent → World → Prop}
    (hE : ∀ row' e a s, Sent R rows a → Alike row row' → E (row', e) a s)
    (hQ : ∀ row a s, Sent R rows a → Q row a s) :
    powers.wp (gateway cfg) t (readOpened row sid) Q E a s := by
  have err : ∀ (e : Exc) (a : Agent) (s : World), Sent R rows a → E (row, e) a s :=
    fun e a s h => hE row e a s h ⟨rfl, rfl⟩
  unfold readOpened
  refine (wp_bind' _).2 (powers_suspend rfl h fun x a s reads => ?_)
  refine (wp_bind' _).2 ((wp_mapError _ _).2 ((wp_ofExcept _).2 ⟨fun truth _ => ?_, fun e _ => err e a s reads.task⟩))
  refine (wp_bind' _).2 ((wp_mapError _ _).2 (Keeps.then reads.task (fun _ a s h => ?_) err))
  have opened : ∀ Q' : Row → Agent → World → Prop, (∀ row', Alike row row' → Q' row' a s) →
      powers.wp (gateway cfg) t (openedRow row truth) Q' (fun e => E (row, e)) a s := by
    intro Q' hQ'
    have failed : ∀ e, E (row, e) a s := fun e => err e a s h
    simp only [openedRow, truthInt, wp_bind', wp_ofExcept, wp_pure]
    exact ⟨fun _ _ => ⟨fun _ _ => ⟨fun _ _ => ⟨fun _ _ => ⟨fun _ _ => ⟨fun _ _ => hQ' _ ⟨rfl, rfl⟩,
      fun e _ => failed e⟩, fun e _ => failed e⟩, fun e _ => failed e⟩, fun e _ => failed e⟩,
      fun e _ => failed e⟩, fun e _ => failed e⟩
  refine (wp_bind' _).2 ((wp_mapError _ _).2 (opened _ fun row' same => ?_))
  refine (wp_bind' _).2 ((wp_mapError _ _).2 ((powers_fetch _ _).2 ⟨hE row' _ a s h same, ?_⟩))
  have same : Alike row (if inadmissible s.store.policy row' = true then
      { row' with state := .draining } else row') := by
    split_ifs
    · exact same
    · exact same
  dsimp only
  refine (wp_bind' _).2 ((wp_mapError _ _).2 ((powers_putRow _ _ _).2 ⟨hE _ _ a s h same, ?_⟩))
  refine (wp_ite _ _ _).2 ⟨fun _ => hE _ _ a _ h same, fun _ => hQ _ a _ h⟩

variable {rows} [hs : Grants R .openSession]

omit hK in
/-- The POST is in order for a task that is ready for it. -/
theorem powers_submit {plan : Plan} (h : Ready R rows a) (few : rows.length < 3)
    (offered : Offered a s plan.row) {Q : Row → Agent → World → Prop}
    {E : Row × Exc → Agent → World → Prop}
    (hE : ∀ row e a s, Sent R (plan.row :: rows) a → Alike plan.row row → E (row, e) a s)
    (hQ : ∀ row a s, Sent R (plan.row :: rows) a → Q row a s) :
    powers.wp (gateway cfg) t (submit plan) Q E a s := by
  unfold submit
  refine (wp_bind' _).2 ⟨⟨fun k hk => ?_, hR.ne h.1.1, ?_, ?_, offered⟩, fun s' x _ _ => ?_⟩
  · obtain rfl := Option.some.inj hk
    exact hs.may h.1.1
  · rwa [h.1.2]
  · rw [h.1.2]
    exact h.2
  · have sent : Sent R (plan.row :: rows) ((a.next (.park (.openPost plan.row plan.duration plan.limit))).next
        (.wake (.openPost plan.row plan.duration plan.limit) x)) :=
      ⟨hs.wake _ x rfl (hs.park _ rfl h.1.1), congrArg (plan.row :: ·) h.1.2⟩
    dsimp only
    refine (wp_bind' _).2 ((wp_mapError _ _).2 ((wp_ofExcept _).2 ⟨fun result _ => ?_,
      fun e _ => hE _ e _ _ sent ⟨rfl, rfl⟩⟩))
    split
    · exact hE _ _ _ _ sent ⟨rfl, rfl⟩
    · refine (wp_ite _ _ _).2 ⟨fun _ => hE _ _ _ _ sent ⟨rfl, rfl⟩, fun _ => ?_⟩
      refine (wp_bind' _).2 ((wp_mapError _ _).2 ((powers_putRow _ _ _).2 ⟨hE _ _ _ _ sent ⟨rfl, rfl⟩, ?_⟩))
      exact powers_readOpened _ sent (fun row e a s h same => hE row e a s h same) hQ

omit hs hR in
/-- The handlers ask for the next provider only once they have cooled down the last. -/
theorem powers_openingFailed {row row' : Row} {e : Exc} {last : Bool} (h : Sent R (row :: rows) a)
    (same : Alike row row') {Q : Option (Option Row) → Agent → World → Prop}
    {E : Exc → Agent → World → Prop} (hE : ∀ e a s, R a → E e a s)
    (hQ : last = false → ∀ a s, Ready R (row :: rows) a → Q none a s) :
    powers.wp (gateway cfg) t (openingFailed last (row', e)) Q E a s := by
  cases e with
  | gateway g =>
    refine (wp_ite _ _ _).2 ⟨fun _ => hE _ a s h.1, fun _ => ?_⟩
    have raised : ∀ (a : Agent) (s : World), R a →
        powers.wp (gateway cfg) t (Coro.raise (.gateway g) : Op (Option (Option Row))) Q E a s :=
      fun a s h => hE _ a s h
    have cooled : ∀ (row' : Row) (s : World), Alike row row' → powers.wp (gateway cfg) t (do
        if g.code = .providerDeclined then
          _coolProvider row'
          if !last then
            return none
        Coro.raise (.gateway g) : Op (Option (Option Row))) Q E a s := by
      intro row' s same
      refine (wp_ite _ _ _).2 ⟨fun _ => ?_, fun _ => raised a s h.1⟩
      simp only [_coolProvider, wp_bind', policy, powers_fetch, now, wp_get, wp_pure, powers_store]
      have sent := Keeping.emit (R := Sent R (row :: rows)) (.cooldown row'.model row'.provider
        (s.now + s.store.policy.recovery.providerCooldownSeconds)) rfl h
      refine ⟨hE _ a s h.1, hE _ a s h.1, agentOk_emit rfl, (wp_ite _ _ _).2 ⟨fun hl => ?_, fun _ => ?_⟩⟩
      · refine hQ (by simpa using hl) _ _ ⟨sent, fun r hr => ?_⟩
        obtain rfl := Option.some.inj hr
        rw [← same.1, ← same.2]
        exact List.mem_cons_self
      · exact raised _ _ sent.1
    refine (wp_bind' _).2 ?_
    simp only [markError, wp_bind', now, wp_get, wp_pure, powers_putRow, powers_event]
    exact ⟨hE _ a s h.1, cooled _ _ same, cooled _ _ same⟩
  | _ =>
    refine (wp_bind' _).2 ((powers_putRow _ _ _).2 ⟨hE _ a s h.1, ?_⟩)
    exact hE _ a _ h.1

variable [hb : Grants R .selectBid]

/-- One turn of the loop asks for another only when the task is ready for it. -/
theorem powers_openRound {modelId : String} {last : Bool} (h : Ready R rows a) (few : rows.length < 3)
    {Q : Option (Option Row) → Agent → World → Prop} {E : Exc → Agent → World → Prop}
    (hE : ∀ e a s, R a → E e a s) (hsome : ∀ r a s, R a → Q (some r) a s)
    (hnone : last = false → ∀ row a s, Ready R (row :: rows) a → Q none a s) :
    powers.wp (gateway cfg) t (openRound cfg modelId last) Q E a s := by
  unfold openRound
  refine (wp_bind' _).2 (powers_preflight h (fun e a s h => hE e a s h.1.1)
    (fun a s h => hsome _ a s h.1.1) fun plan a s h offered => ?_)
  refine (wp_tryCatch _).2 ((wp_bind' _).2 (powers_submit h few offered
    (fun row e a s h same => powers_openingFailed h same hE fun hl a s h => hnone hl _ a s h)
    fun row a s h => hsome _ a s h.1))

/-- The loop of `_open` sends at most three POSTs. -/
theorem powers_openRounds {modelId : String} (n : ℕ) {Q : Option Row → Agent → World → Prop}
    {E : Exc → Agent → World → Prop} (hE : ∀ e a s, R a → E e a s) (hQ : ∀ r a s, R a → Q r a s) :
    ∀ {rows a s}, Ready R rows a → rows.length + n = 3 →
      powers.wp (gateway cfg) t (openRounds cfg modelId n) Q E a s := by
  induction n with
  | zero => exact fun h _ => hQ _ _ _ h.1.1
  | succ n ih =>
    intro rows a s h hn
    refine (wp_bind' _).2 (powers_openRound h (by omega) hE (fun r a s h => hQ r a s h)
      fun _ row a s h => ih h ?_)
    rw [List.length_cons]
    omega

/-- An opener that has sent nothing yet. -/
theorem powers_openModel {modelId : String} {revision : ℕ} (h : Ready R [] a)
    {Q : Unit → Agent → World → Prop} {E : Exc → Agent → World → Prop}
    (hE : ∀ e a s, R a → E e a s) (hQ : ∀ a s, R a → Q () a s) :
    powers.wp (gateway cfg) t (openModel cfg modelId revision) Q E a s := by
  have opened : ∀ {a s}, Ready R [] a → powers.wp (gateway cfg) t (_open cfg modelId)
      (fun _ a _ => R a) (fun _ a _ => R a) a s := by
    intro a s h
    have locked : ∀ {a s}, Ready R [] a → powers.wp (gateway cfg) t (do
        perform .lock
        (openRounds cfg modelId 3).tryFinally (perform .unlock) : Op (Option Row))
        (fun _ a _ => R a) (fun _ a _ => R a) a s := by
      intro a s h
      refine (wp_bind' _).2 ⟨agentOk_emit rfl, (wp_tryFinally _).2 ?_⟩
      have freed : ∀ {a s}, R a → powers.wp (gateway cfg) t (perform .unlock : Op Unit)
          (fun _ a _ => R a) (fun _ a _ => R a) a s := fun h => Keeps.wp (R := R) t _ h
      exact powers_openRounds (R := R) 3 (fun e a s h => freed h) (fun r a s h => freed h)
        (Keeping.emit (R := Ready R []) .lock rfl h) rfl
    unfold _open withLock
    refine (wp_bind' _).2 (Keeps.then h (fun m a s h => ?_) fun e a s h => h.1.1)
    split
    · refine (wp_bind' _).2 (powers_suspend rfl h fun x a s reads => ?_)
      split
      · exact locked reads.task
      · exact reads.task.1.1
    · exact locked h
  unfold openModel
  refine (wp_bind' _).2 ((wp_attempt _).2 (wp_mono (fun r a s h => ?_) (fun e a s h => ?_) _ (opened h)))
  · exact Keeps.then h (fun _ a s h => hQ a s h) hE
  · cases e with
    | gateway g =>
      dsimp only
      refine Keeps.then h (fun _ a s h => hQ a s h) hE
    | _ => exact hE _ a s h

end Sending

end MorpheusGateway
