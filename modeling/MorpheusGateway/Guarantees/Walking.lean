/-
# Which provider an opener asks

An opener asks one provider after another.  In each turn it ranks the bids of its model, reads
the best of them again, and sends a POST of that bid.  When the provider declines, the opener
cools it down and begins the next turn; it sends three POSTs at most.

`walksProviders` states this of whole runs.  `turn` is what a task has done since its last POST,
so that a bid ranked or read in an earlier turn does not count.
-/

import MorpheusGateway.Guarantees.Revoking

namespace MorpheusGateway

open Contract

variable {cfg : Config} {C : ItemRule}

/-! ### Turns -/

/-- The records of which the task has sent an opening POST, newest first. -/
def sent (t : ℕ) : List LogItem → List Row
  | [] | .crash :: _ => []
  | .drift _ :: l => sent t l
  | .task u (.start _) :: l => if u = t then [] else sent t l
  | .task u (.park i) :: l => if u = t then i.sends.toList ++ sent t l else sent t l
  | .task _ _ :: l => sent t l

/-- With this entry a task begins another turn: its start, or an opening POST. -/
def LogEntry.turns : LogEntry → Bool
  | .start _ => true
  | .park i => i.sends.isSome
  | _ => false

/-- What the task has done since it began its turn, newest first. -/
def turn (t : ℕ) : List LogItem → List LogEntry
  | [] | .crash :: _ => []
  | .drift _ :: l => turn t l
  | .task u x :: l => if u = t then if LogEntry.turns x then [] else x :: turn t l else turn t l

/-- What a task has of its turn is in the log. -/
structure Walked (t : ℕ) (l : List LogItem) (a : Agent) : Prop where
  sent : a.sent = sent t l
  woken : ∀ i x, a.woken = some (i, x) → .wake i x ∈ turn t l
  ranking : ∀ i x, a.ranking = some (i, x) → .wake i x ∈ turn t l
  offer : ∀ p bidId y, a.offer = some (p, bidId, y) → .wake (.openBid p bidId) y ∈ turn t l
  cooled : ∀ m p, (m, p) ∈ a.cooled → ∃ u, .emit (.cooldown m p u) ∈ turn t l

/-- Another entry of the turn leaves what the log has of it. -/
theorem mem_turn {t : ℕ} {x y : LogEntry} {l : List LogItem} (hx : LogEntry.turns x = false)
    (h : y ∈ turn t l) : y ∈ turn t (.task t x :: l) := by
  rw [turn, if_pos rfl, if_neg (by simp [hx])]
  exact List.mem_cons_of_mem _ h

/-- What a task does belongs to its turn. -/
theorem self_mem_turn {t : ℕ} {x : LogEntry} {l : List LogItem} (hx : LogEntry.turns x = false) :
    x ∈ turn t (.task t x :: l) := by
  rw [turn, if_pos rfl, if_neg (by simp [hx])]
  exact List.mem_cons_self

section Steps

variable {t : ℕ} {l : List LogItem} {a : Agent}

/-- A log that has sent the same and keeps the turn tells the same of the task. -/
theorem Walked.keep {l' : List LogItem} (h : Walked t l a)
    (hs : MorpheusGateway.sent t l' = MorpheusGateway.sent t l)
    (ht : ∀ y ∈ turn t l, y ∈ turn t l') : Walked t l' a where
  sent := h.sent.trans hs.symm
  woken i x hw := ht _ (h.woken i x hw)
  ranking i x hr := ht _ (h.ranking i x hr)
  offer p bidId y ho := ht _ (h.offer p bidId y ho)
  cooled m p hc := (h.cooled m p hc).imp fun _ hu => ht _ hu

/-- An entry that neither starts the task nor suspends it belongs to its turn. -/
theorem Walked.older (h : Walked t l a) {x : LogEntry} (hx : LogEntry.turns x = false)
    (hs : MorpheusGateway.sent t (.task t x :: l) = MorpheusGateway.sent t l) :
    Walked t (.task t x :: l) a :=
  h.keep hs fun _ hy => mem_turn hx hy

/-- An answer keeps the invariant. -/
theorem Walked.wake (h : Walked t l a) (i : Site) (x : Answer) :
    Walked t (.task t (.wake i x) :: l) (a.next (.wake i x)) := by
  have old : Walked t (.task t (.wake i x) :: l) a := h.older rfl rfl
  refine ⟨old.sent, fun j y hw => ?_, old.ranking, fun p bidId y ho => ?_, old.cooled⟩
  · obtain ⟨rfl, rfl⟩ := Prod.mk.inj (Option.some.inj hw)
    exact self_mem_turn rfl
  · have ho : (i.offers x).or a.offer = some (p, bidId, y) := ho
    rcases Option.or_eq_some_iff.1 ho with ho | ⟨-, ho⟩
    · cases i with
      | openBid p' bidId' =>
        obtain ⟨rfl, he⟩ := Prod.mk.inj (Option.some.inj ho)
        obtain ⟨rfl, rfl⟩ := Prod.mk.inj he
        exact self_mem_turn rfl
      | _ => cases ho
    · exact old.offer p bidId y ho

/-- An await keeps it. -/
theorem Walked.park (h : Walked t l a) (i : Site) :
    Walked t (.task t (.park i) :: l) (a.next (.park i)) := by
  have sent : i.sends.toList ++ a.sent = MorpheusGateway.sent t (.task t (.park i) :: l) := by
    rw [MorpheusGateway.sent, if_pos rfl, h.sent]
  cases hi : i.sends.isSome with
  | true =>
    -- an opening POST: nothing of the turn before it counts
    refine ⟨sent, fun _ _ hw => (by cases hw), fun j x hr => ?_, fun p bidId y ho => ?_,
      fun m p hc => ?_⟩
    · cases (if_pos hi).symm.trans hr
    · cases (if_pos hi).symm.trans ho
    · have hc : (m, p) ∈ if i.sends.isSome then [] else a.cooled := hc
      rw [if_pos hi] at hc
      cases hc
  | false =>
    have hx : LogEntry.turns (.park i) = false := hi
    refine ⟨sent, fun _ _ hw => (by cases hw), fun j x hr => ?_, fun p bidId y ho => ?_,
      fun m p hc => ?_⟩
    · have hr : (if i.sends.isSome then none else if i.selects then a.woken else a.ranking) =
        some (j, x) := hr
      rw [if_neg (by simp [hi])] at hr
      split_ifs at hr with hs
      · exact mem_turn hx (h.woken j x hr)
      · exact mem_turn hx (h.ranking j x hr)
    · have ho : (if i.sends.isSome then none else a.offer) = some (p, bidId, y) := ho
      rw [if_neg (by simp [hi])] at ho
      exact mem_turn hx (h.offer p bidId y ho)
    · have hc : (m, p) ∈ if i.sends.isSome then [] else a.cooled := hc
      rw [if_neg (by simp [hi])] at hc
      exact (h.cooled m p hc).imp fun _ hu => mem_turn hx hu

/-- An event keeps it. -/
theorem Walked.emit (h : Walked t l a) (e : Event) :
    Walked t (.task t (.emit e) :: l) (a.next (.emit e)) := by
  have old : Walked t (.task t (.emit e) :: l) a := h.older rfl rfl
  obtain ⟨ranking, offer, sent⟩ := a.next_walk e
  refine ⟨sent.trans old.sent, fun i x hw => ?_, fun i x hr => old.ranking i x (ranking.symm.trans hr),
    fun p bidId y ho => old.offer p bidId y (offer.symm.trans ho), fun m p hc => ?_⟩
  · by_cases he : ∃ n, e = .walletScan n
    · obtain ⟨n, rfl⟩ := he
      cases hw
    · exact old.woken i x ((a.next_woken fun n hn => he ⟨n, hn⟩).symm.trans hw)
  · cases e with
    | cooldown m' p' u =>
      rcases List.mem_cons.1 hc with he | hc
      · obtain ⟨rfl, rfl⟩ := Prod.mk.inj he
        exact ⟨u, self_mem_turn rfl⟩
      · exact old.cooled m p hc
    | key | walletScan | finish => exact old.cooled m p hc
    | _ => exact old.cooled m p hc

end Steps

/-- The turn of a task is the one that the log tells. -/
theorem walked_of_point {t : ℕ} {l : List LogItem} {a : Agent} (h : powers.point t l = some a) :
    Walked t l a := by
  induction l generalizing a with
  | nil => cases h
  | cons x l ih =>
    cases x with
    | drift d => exact (ih h).keep rfl fun _ hy => hy
    | crash => cases h
    | task u x =>
      unfold point at h
      split_ifs at h with hu
      · subst hu
        cases x with
        | start p =>
          obtain rfl := Option.some.inj h
          refine ⟨?_, fun _ _ hw => (by cases hw), fun _ _ hr => (by cases hr),
            fun _ _ _ ho => (by cases ho), fun _ _ hc => (by cases hc)⟩
          rw [sent, if_pos rfl]
          rfl
        | stop => cases h
        | toss q b =>
          obtain ⟨a, ha, rfl⟩ := Option.map_eq_some_iff.1 h
          exact (ih ha).older rfl rfl
        | wake i x =>
          obtain ⟨a, ha, rfl⟩ := Option.map_eq_some_iff.1 h
          exact (ih ha).wake i x
        | park i =>
          obtain ⟨a, ha, rfl⟩ := Option.map_eq_some_iff.1 h
          exact (ih ha).park i
        | emit e =>
          obtain ⟨a, ha, rfl⟩ := Option.map_eq_some_iff.1 h
          exact (ih ha).emit e
      · -- another task leaves the turn of this one
        have same : turn t (.task u x :: l) = turn t l := by rw [turn, if_neg hu]
        have sends : sent t (.task u x :: l) = sent t l := by
          cases x with
          | start | park => rw [sent, if_neg hu]
          | _ => rfl
        exact (ih h).keep sends fun _ hy => by rwa [same]

/-! ### Openers -/

/-- In its turn the task has ranked the bids of the requested model, with one of this provider
among them, and has read that bid again: it is of that model and provider and not deleted.  The
stored settings are of the revision that the preflight began with, permit the provider and are
not paused, and the node is not in maintenance. -/
def Fetched (s : World) (t : ℕ) (l : List LogItem) (row : Row) : Prop :=
  ∃ p x y rated entry bid, .wake (.openBids p) x ∈ turn t l ∧ readBids p.model.id x = .ok rated ∧
    entry ∈ rated ∧ ((entry.get "Bid").get "Id").toStr = row.bid ∧
    (entry.get "Bid").lowerField "Provider" = row.provider ∧
    .wake (.openBid p row.bid) y ∈ turn t l ∧ readBid row.bid y = .ok bid ∧
    bid.lowerField "ModelAgentId" = row.model ∧ bid.lowerField "Provider" = row.provider ∧
    int (bid.getD "DeletedAt" (.num 1)) = .ok 0 ∧ p.model.id = row.model ∧
    p.policy.revision = s.store.policy.revision ∧
    s.store.policy.providers.permits row.provider = true ∧ s.store.policy.paused = false ∧
    s.memory.maintenance = false

/-- An opener reads the first bid of its ranking that is eligible by the settings and the
cooldowns as they are stored, and no other.  It sends at most three POSTs, each of a bid that it
ranked and read since the one before, and only after cooling down the provider of that one. -/
def WalksProviders : ItemRule := OnPark fun s l t i =>
  (∀ p bidId, i = .openBid p bidId → ∃ x rated, .wake (.openBids p) x ∈ turn t l ∧
    readBids p.model.id x = .ok rated ∧ Best s p.model.id rated bidId) ∧
  ∀ row duration limit, i = .openPost row duration limit → (sent t l).length < 3 ∧
    (∀ r ∈ (sent t l).head?, ∃ u, .emit (.cooldown r.model r.provider u) ∈ turn t l) ∧
    Fetched s t l row

/-- **Each POST is of a fresh bid.**  In every run, an opener asks at most three providers, one
after another: the best of those that it may ask, by a bid that it has ranked and read in this
turn, and the next only once it has cooled down the last. -/
theorem walksProviders (cfg : Config) : Ensures cfg Always WalksProviders := by
  refine Ensures.poweredPark fun {s P l t a i} _ at_ ok => ?_
  have walked := walked_of_point at_
  have site : SiteOk a s i := ok.2.2
  refine ⟨?_, ?_⟩
  · rintro p bidId rfl
    obtain ⟨x, rated, hw, hr, best⟩ := site
    exact ⟨x, rated, walked.woken _ _ hw, hr, best⟩
  · rintro row duration limit rfl
    obtain ⟨few, cooled, p, x, y, rated, entry, bid, hrank, hr, hm, hid, hprov, ho, rest⟩ := site
    rw [walked.sent] at few cooled
    exact ⟨few, fun r hr => walked.cooled _ _ (cooled r hr), p, x, y, rated, entry, bid,
      walked.ranking _ _ hrank, hr, hm, hid, hprov, walked.offer _ _ _ ho, rest⟩

end MorpheusGateway
