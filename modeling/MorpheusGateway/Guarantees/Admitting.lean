/-
# The limits at an opening

`_open` lists the live records and checks the limits of the policy against the list.
Seven awaits later it stores the new record.  The policy is read again then, the list is
not, so the limits hold for the records of that moment if nobody meanwhile stores a
record that adds to them (`LeavesListing`).  `not_withinLimits` is a run in which the
wallet scan finds a session during the preflight and the pool is exceeded.
-/

import MorpheusGateway.Protocol.Runs

namespace MorpheusGateway

open Contract Sessions

variable {cfg : Config} {C : ItemRule}

/-! ### What counts against the limits -/

/-- The number of records of a model. -/
def ofModel (id : String) (rows : List Row) : ℕ := (rows.filter fun r => r.model = id).length

/-- The records `rows'` count no more than `rows`: in number, for the model, and in stake. -/
structure NoMore (id : String) (rows rows' : List Row) : Prop where
  number : rows'.length ≤ rows.length
  model : ofModel id rows' ≤ ofModel id rows
  stake : ∀ n, stakeSum rows = .ok n → ∃ n', stakeSum rows' = .ok n' ∧ n' ≤ n

/-- A list counts no more than itself. -/
theorem NoMore.refl (id : String) (rows : List Row) : NoMore id rows rows :=
  ⟨le_rfl, le_rfl, fun n h => ⟨n, h, le_rfl⟩⟩

/-- Less than less is less. -/
theorem NoMore.trans {id : String} {a b c : List Row} (h : NoMore id a b) (h' : NoMore id b c) :
    NoMore id a c where
  number := h'.number.trans h.number
  model := h'.model.trans h.model
  stake n hn := by
    obtain ⟨m, hm, hmn⟩ := h.stake n hn
    obtain ⟨k, hk, hkm⟩ := h'.stake m hm
    exact ⟨k, hk, hkm.trans hmn⟩

/-- The live records of the store. -/
def Store.live (st : Store) : List Row := st.sessions.rows.filter fun r => !r.state.terminal

/-- Only storing a record changes the live ones. -/
theorem live_apply {s : World} {t : ℕ} {e : Event} (h : e.stored = none) :
    (s.apply t e).store.live = s.store.live := by
  cases e with
  | put w row => cases h
  | prune =>
    show List.filter _ (List.filter _ s.store.sessions.rows) = List.filter _ s.store.sessions.rows
    rw [List.filter_filter]
    refine List.filter_congr fun r _ => ?_
    cases r.state.terminal
    · rfl
    · simp
  | _ => rfl

/-- The preflight `l` has checked its list against the limits of its policy, and the live
records count no more than the list. -/
structure Listing (st : Store) (l : Preflight) : Prop where
  pool : l.rows.length < l.policy.maxSessions
  model : ofModel l.model.id l.rows < l.model.maxSessions
  resolved : ∃ name, l.policy.resolve name = some l.model
  live : NoMore l.model.id l.rows st.live

/-! ### The guarantee -/

/-- The limits for a new record `row` with the stake limit `limit`, and the balances and
stakes that the preflight has read. -/
structure WithinLimits (s : World) (row : Row) (balances : Balances) (stakes : Stakes)
    (estimate limit : ℤ) : Prop where
  pool : s.store.live.length + 1 ≤ s.store.policy.maxSessions
  model : ∃ m ∈ s.store.policy.models, m.id = row.model ∧
    ofModel row.model s.store.live + 1 ≤ m.maxSessions
  total : ∃ staked, stakeSum s.store.live = .ok staked ∧
    staked + limit + decimal stakes.hold + decimal stakes.available ≤
      decimal s.store.policy.budget.maxTotalStakeWei
  positive : 0 < estimate
  enough : estimate ≤ limit
  session : limit ≤ decimal s.store.policy.budget.maxSessionStakeWei
  mor : decimal s.store.policy.budget.minLiquidMorWei ≤ decimal balances.mor - limit
  eth : decimal s.store.policy.budget.minEthWei ≤ decimal balances.eth

/-- An opening is stored within the limits and as its POST says, with the balances and stakes
that the chain reads of its preflight returned. -/
def OpensWithinLimits : ItemRule := fun s l x =>
  OnPut (fun s l t w row => ∀ pre balances stakes estimate limit,
    w = .openStart pre balances stakes estimate limit →
    row.state = .opening ∧ row.stakeWei = toString limit ∧
      WithinLimits s row balances stakes estimate limit ∧
      ∃ pc a, pcAt l t = some pc ∧ pc.place = .woken (.openStakes pre balances estimate) a ∧
        readStakes a = .ok stakes) s l x ∧
  OnPark (fun s l t i => match i with
    | .openSupply pre balances => ∃ pc a, pcAt l t = some pc ∧
        pc.place = .woken (.openBalances pre) a ∧ readBalances a = .ok balances
    | .openPost row _ limit => s.row? row.id = some row ∧ row.state = .opening ∧
        row.stakeWei = toString limit
    | _ => True) s l x

/-- While a preflight is on, only its own opening adds to what counts against the limits. -/
def LeavesListing : ItemRule :=
  OnPut fun s l t w row => ∀ u pc pre, pcAt l u = some pc → pc.place.preflight = some pre →
    (u = t → w.spends = none) →
    NoMore pre.model.id s.store.live (s.apply t (.put w row)).store.live

/-- An event keeps the list as long as it adds nothing. -/
theorem Listing.apply {s : World} {t : ℕ} {e : Event} {l : Preflight} (h : Listing s.store l)
    (he : ∀ w row, e.stored = some (w, row) →
      NoMore l.model.id s.store.live (s.apply t e).store.live) :
    Listing (s.apply t e).store l := by
  refine ⟨h.pool, h.model, h.resolved, h.live.trans ?_⟩
  cases hs : e.stored with
  | none =>
    rw [live_apply hs]
    exact .refl _ _
  | some p => exact he p.1 p.2 hs

/-- **While a preflight is on, its list covers the live records.** -/
theorem undisturbed_listing : Undisturbed (gateway cfg) (protocol cfg) LeavesListing
    fun s _ pc => ∀ pre, pc.place.preflight = some pre → Listing s.store pre := by
  refine undisturbed_place (J := fun st p => ∀ pre, p.preflight = some pre → Listing st pre)
    (fun _ _ h => nomatch h) (fun {st i a} h pre hp => h pre hp)
    (fun {s t pc e l} h at_ _ c pre hpre => ?_) (fun {s t pc e l u q} ne h atu _ _ c pre hpre => ?_)
    fun {s t pc i l} h _ ok _ pre hpre => ?_
  · rcases pc.place_emit e with ⟨hp, hw⟩ | ⟨_, _, _, -, -, hp⟩
    · rw [hp] at hpre
      refine (h pre hpre).apply fun w row he => ?_
      obtain rfl := Event.eq_put he
      exact c.stored he t pc pre at_ hpre fun _ => hw w row he
    · rw [hp] at hpre
      cases hpre
  · refine (h pre hpre).apply fun w row he => ?_
    obtain rfl := Event.eq_put he
    exact c.stored he u q pre atu hpre fun hut => absurd hut ne
  · have still : InPreflight pc pre → Listing s.store pre := by
      rintro ⟨-, j, a, hpl, hj⟩
      exact h pre (by rw [hpl]; exact hj)
    cases i with
    | openBids pre' =>
      obtain rfl := Option.some.inj hpre
      obtain ⟨-, -, -, hrows, hpool, hmodel, hres⟩ := ok
      exact ⟨hpool, hmodel, hres, by rw [hrows]; exact .refl _ _⟩
    | openBid pre' b =>
      obtain rfl := Option.some.inj hpre
      exact still ok
    | openBalances pre' =>
      obtain rfl := Option.some.inj hpre
      exact still ok
    | openSupply pre' b =>
      obtain rfl := Option.some.inj hpre
      exact still ok.1
    | openBudget pre' b =>
      obtain rfl := Option.some.inj hpre
      exact still ok.1
    | openStakes pre' b n =>
      obtain rfl := Option.some.inj hpre
      exact still ok.1
    | _ => cases hpre

/-- **An opening is within the limits when it is submitted**, if nobody adds to what counts
against them while its preflight is on. -/
theorem opens_within_limits (cfg : Config) : Ensures cfg LeavesListing OpensWithinLimits := by
  refine Ensures.and (Ensures.put fun {s P l t pc w row} tr at_ ok _ => ?_)
    (Ensures.park fun {s P l t pc i} tr at_ ok _ => ?_)
  · rintro pre balances stakes estimate limit rfl
    obtain ⟨-, -, hst, -, -, hmodel, hstake, hpol, ⟨a, hplace, hread⟩, hpos, henough, heth, staked,
      hsum, hlimit⟩ := ok
    refine ⟨hst, hstake, ?_, pc, a, at_, hplace, hread⟩
    have hl : Listing s.store pre := by
      refine undisturbed_listing.traj tr t pc ?_ pre (by rw [hplace]; rfl)
      rw [Run.pcs tr, at_]
    obtain ⟨name, hres⟩ := hl.resolved
    obtain ⟨hmem, -⟩ := Policy.resolve_mem hres
    obtain ⟨live, hlive, hle⟩ := hl.live.stake staked hsum
    have hmin : limit ≤ decimal pre.policy.budget.maxSessionStakeWei ∧
        limit ≤ decimal pre.policy.budget.maxTotalStakeWei -
          (staked + decimal stakes.hold + decimal stakes.available) ∧
        limit ≤ decimal balances.mor - decimal pre.policy.budget.minLiquidMorWei := by
      rw [hlimit, stakeLimit]
      exact ⟨(min_le_left _ _).trans (min_le_left _ _), (min_le_left _ _).trans (min_le_right _ _),
        min_le_right _ _⟩
    rw [hpol] at hmin hmem
    have hpool := hl.pool
    have hof := hl.model
    have hn := hl.live.number
    have hm := hl.live.model
    rw [hpol] at hpool heth
    constructor
    · omega
    · exact ⟨pre.model, hmem, hmodel.symm, by rw [hmodel]; omega⟩
    · exact ⟨live, hlive, by omega⟩
    · exact hpos
    · exact henough
    · exact hmin.1
    · omega
    · exact heth
  · cases i with
    | openSupply pre balances =>
      obtain ⟨-, a, hplace, hread⟩ := ok
      exact ⟨pc, a, at_, hplace, hread⟩
    | openPost row d limit =>
      obtain ⟨-, hrow, hst, -, -, -, -, hstake⟩ := ok
      exact ⟨hrow, hst, hstake⟩
    | _ => exact trivial

/-- Whoever is careful leaves the list alone. -/
theorem leavesListing_of_careful {s : World} {l : List LogItem} {x : LogItem}
    (h : careful s l x = true) : LeavesListing s l x := by
  cases x with
  | task t a =>
    cases a with
    | emit e =>
      cases e with
      | put w row =>
        intro u pc pre at_ hpre hspends
        have hp := careful_put h at_
        simp only [apart, hpre, Option.isNone_some, Bool.false_or, Bool.and_eq_true,
          decide_eq_true_eq] at hp
        obtain ⟨⟨⟨rfl, spends⟩, -⟩, -⟩ := hp
        rw [hspends rfl] at spends
        cases spends
      | _ => exact trivial
    | _ => exact trivial
  | _ => exact trivial

/-- An opening is stored on the day on which nobody interferes. -/
theorem opens_within_limits_day : Exhibits {} LeavesListing OpensWithinLimits Sample.opens :=
  (opens_within_limits {}).exhibit (Sample.day_exhibits (fun _ _ _ => leavesListing_of_careful) (by simp))

/-- The new record does not exceed the pool. -/
def inPool (s : World) (_ : List LogItem) : LogItem → Bool
  | .task _ (.emit (.put (.openStart ..) _)) => s.store.live.length + 1 ≤ s.store.policy.maxSessions
  | _ => true

/-- The pool holds one session.  While its preflight is on, the wallet scan stores a session
that it has found. -/
theorem not_opensWithinLimits : ¬Ensures {} Always OpensWithinLimits := by
  refine not_ensures inPool (fun {s l x} h => ?_)
    (Sample.checking { Sample.policy with maxSessions := 1 } "m" ++ [
      .start 5 .recoveryRun [], .start 6 (.task 2 .sweep) [], .wake 6 Sample.identity [],
      .wake 6 (Sample.ok [("sessions", .arr [.obj [("Id", .str Sample.sid),
        ("User", .str Sample.wallet), ("ModelAgentId", .str Sample.modelId),
        ("Provider", .str Sample.provider), ("BidID", .str Sample.bidId), ("EndsAt", .num 0),
        ("ClosedAt", .num 0), ("Stake", .num 5), ("OpenedAt", .num 1)]])]) []])
    (.wake 4 Sample.stakes []) (by decide +kernel)
  unfold inPool
  split
  · have hput := h.1 _ _ _ _ _ rfl
    exact decide_eq_true hput.2.2.1.pool
  · rfl

end MorpheusGateway
