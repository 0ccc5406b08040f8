/-
# A restart never cuts into work

A restart begins a maintenance, waits until no lease is held and for the wallet lock, and
has the helper restart the node.  During a maintenance no lease is granted, so what was
drained stays drained while the restart waits for the lock (`maintained_drained`): a
request that is still confirming a record has reserved it, and would have been waited for.

If the drain runs out of time the restart ends without a POST to the helper.  Its last
write stands in a `finally` in front of the line that ends the maintenance: when it fails,
the gateway stays in maintenance (`not_restartsCleanly`).
-/

import MorpheusGateway.Protocol.Holding

namespace MorpheusGateway

open Contract

variable {cfg : Config} {C : ItemRule}

/-! ### The guarantee -/

/-- The awaits of the wallet transactions. -/
def Site.walletPost : Site → Bool
  | .openPost .. | .closePost _ | .withdrawPost _ => true
  | _ => false

/-- Since its start, the task `t` made an entry like this. -/
def made (p : LogEntry → Bool) (t : ℕ) : List LogItem → Bool
  | [] | .crash :: _ => false
  | .task u (.start _) :: l => if u = t then false else made p t l
  | .task u a :: l => (u = t && p a) || made p t l
  | .drift _ :: l => made p t l

/-- The drain of a restart runs out of time. -/
def runsOut : LogEntry → Bool
  | .wake (.drained _) .timeout | .wake .drainedLock .timeout => true
  | _ => false

/-- The maintenance ends. -/
def lifts : LogEntry → Bool
  | .emit (.maintenance false) => true
  | _ => false

/-- The write that follows a drain which ran out of time does not fail. -/
def StoresOutcome : ItemRule
  | _, l, .task t (.toss .restart true) => made runsOut t l = false
  | _, _, _ => True

/-! ### What a task has made -/

/-- What another task does the task has not made. -/
theorem made_of_ne {p : LogEntry → Bool} {t u : ℕ} {a : LogEntry} {l : List LogItem} (h : u ≠ t) :
    made p u (.task t a :: l) = made p u l := by
  cases a with
  | start => exact if_neg (Ne.symm h)
  | _ => simp [made, Ne.symm h]

/-- What the task does it has made. -/
theorem made_self {p : LogEntry → Bool} {t : ℕ} {a : LogEntry} {l : List LogItem}
    (h : ∀ q, a ≠ .start q) : made p t (.task t a :: l) = (p a || made p t l) := by
  cases a with
  | start q => exact absurd rfl (h q)
  | _ => simp [made]

/-! ### What a suspended task holds -/

/-- A task that awaits a wallet transaction has the lock, one that confirms a record has
reserved it. -/
def Pc.Awaiting (pc : Pc) : Prop := ∀ i, pc.place = .parked i →
  (i.walletPost = true → pc.lock = true) ∧
    ∀ row, i = .acquireRead row ∨ i = .identity (.acquire row) → pc.lease = some row.id

/-- Only a task that is parked has to await. -/
theorem Pc.Awaiting.of_place {pc : Pc} (h : ∀ i, pc.place ≠ .parked i) : pc.Awaiting :=
  fun i hi => absurd hi (h i)

/-- An await that is in order is one of a task that awaits. -/
theorem awaiting_park {pc : Pc} {s : World} {i : Site} (ok : AwaitOk cfg pc s i) :
    (pc.move (.parked i)).Awaiting := by
  intro j hj
  obtain rfl := Place.parked.inj hj
  refine ⟨fun hw => ?_, ?_⟩
  · cases i with
    | openPost | closePost | withdrawPost => exact ok.1
    | _ => cases hw
  · rintro row (rfl | rfl)
    · exact ok.1
    · exact ok.1

/-- A parked task awaits, whatever the others do. -/
theorem undisturbed_awaiting (hC : ∀ {s l x}, C s l x → Alone (protocol cfg) l x) :
    Undisturbed (gateway cfg) (protocol cfg) C fun _ _ pc => pc.Awaiting where
  enter {s t p s' l} _ _ := by
    have hp : ((protocol cfg).enter p).place = .fresh := Pc.enter_place p
    refine .of_place fun i hi => ?_
    rw [hp] at hi
    cases hi
  begin _ h _ := h
  wake _ _ _ _ := .of_place fun _ hi => (nomatch hi)
  emit {s t pc e l} _ at_ _ c :=
    .of_place (place_of_site_none ((sited cfg).emit e ((hC c).2 rfl pc at_)))
  other _ hu _ _ _ _ _ := hu
  toss {s t pc q b l} h _ := by
    intro i hi
    have hpc := pc.same_toss q b
    have hp : pc.place = .parked i := (place_toss pc q b).symm.trans hi
    refine ⟨fun hw => hpc.lock.trans ((h i hp).1 hw), fun row hr => hpc.lease.trans ((h i hp).2 row hr)⟩
  park _ _ ok _ := awaiting_park ok.1
  drift h _ := h

/-! ### The drain -/

/-- The drain of a restart is over, or has run out of time. -/
def Place.late : Place → Bool
  | .fresh | .parked (.drained _) | .parked .drainedLock | .woken (.drained _) .done
  | .woken .drainedLock .done => false
  | _ => true

/-- The awaits of the drain. -/
def Site.drains : Site → Bool
  | .drained _ | .drainedLock => true
  | _ => false

/-- An await that is not behind the drain belongs to it. -/
theorem drains_of_not_late {i : Site} (h : (Place.parked i).late = false) : i.drains = true := by
  cases i with
  | drained | drainedLock => rfl
  | _ => cases h

/-- The drain runs out of time at its own awaits. -/
theorem runsOut_wake {i : Site} {a : Answer} (h : runsOut (.wake i a) = true) :
    i.drains = true ∧ (Place.woken i a).late = true := by
  cases i with
  | drained | drainedLock =>
    cases a with
    | timeout => exact ⟨rfl, rfl⟩
    | _ => cases h
  | _ => cases h

/-- A drain that ran out of time is behind the task, and its restart is still on or has
ended the maintenance. -/
structure Draining (l : List LogItem) (t : ℕ) (pc : Pc) : Prop where
  late : made runsOut t l = true → pc.place.late = true
  on : made runsOut t l = true ∨ (∃ i, pc.place = .parked i ∧ i.drains = true) →
    pc.stuck = false ∧ (pc.restarting.isSome = true ∨ made lifts t l = true)

/-- A restart is one until it ends its maintenance. -/
theorem restarting_emit (pc : Pc) (e : Event) :
    (pc.emit e).restarting = pc.restarting ∨ lifts (.emit e) = true ∧ (pc.emit e).restarting = none := by
  cases he : e.holding with
  | false => exact .inl (pc.same_emit he).restarting
  | true =>
    cases e with
    | maintenance on =>
      cases on with
      | true => exact .inl rfl
      | false => exact .inr ⟨rfl, rfl⟩
    | spawn handle w =>
      cases w
      all_goals exact .inl rfl
    | lock | unlock | reserve | unreserve | wait | unwait | admitted | dismiss | cleaned =>
      exact .inl rfl
    | _ => cases he

/-- No event makes a task stuck. -/
theorem stuck_emit (pc : Pc) (e : Event) : (pc.emit e).stuck = pc.stuck := by
  cases e with
  | put w row =>
    cases w
    all_goals rfl
  | putOperation w op =>
    cases w
    all_goals rfl
  | attempt a =>
    simp only [Pc.emit]
    split
    all_goals rfl
  | maintenance on =>
    cases on
    all_goals rfl
  | spawn handle w =>
    cases w
    all_goals rfl
  | _ => rfl

/-- Only a failed operation of a restart does. -/
theorem stuck_toss (pc : Pc) (q : StoreCall) (b : Bool) :
    (pc.toss q b).stuck = pc.stuck ∨ q = .restart ∧ b = true := by
  unfold Pc.toss
  split_ifs with h1 h2
  · exact .inl rfl
  · exact .inr ⟨h2.2, h2.1⟩
  · exact .inl rfl

/-- The place is late when it was, or when the answer was spent. -/
theorem late_emit {pc : Pc} {e : Event} (h : pc.place.late = true) :
    (pc.emit e).place.late = true := by
  rcases pc.place_emit e with ⟨hp, -⟩ | ⟨_, _, _, -, -, hp⟩
  · rwa [hp]
  · rw [hp]
    rfl

/-- An await of the drain is at hand in time, by a restart that can end its maintenance. -/
theorem draining_park {pc : Pc} {s : World} {i : Site} (ok : AwaitOk cfg pc s i)
    (hi : i.drains = true) :
    pc.place.late = false ∧ pc.stuck = false ∧ pc.restarting.isSome = true := by
  cases i with
  | drained b =>
    obtain ⟨hp, hs, hr⟩ := ok
    exact ⟨by rw [hp]; rfl, hs, hr⟩
  | drainedLock =>
    obtain ⟨ht, hs, kind, immediate, hr, -⟩ := ok
    refine ⟨?_, hs, by rw [hr]; rfl⟩
    unfold Place.inTime at ht
    split at ht
    · rename_i hp
      rw [hp]
      rfl
    · rename_i hp
      rw [hp]
      rfl
    · cases ht
  | _ => cases hi

/-- What others do leaves the drain of a task. -/
theorem Draining.of_ne {l : List LogItem} {t u : ℕ} {a : LogEntry} {q : Pc} (h : Draining l u q)
    (hu : u ≠ t) : Draining (.task t a :: l) u q where
  late hm := h.late (by rwa [made_of_ne hu] at hm)
  on hm := by
    rw [made_of_ne hu] at hm ⊢
    exact h.on hm

/-- **A restart is draining as its log tells**, in every run. -/
theorem maintained_draining
    (hC : ∀ {s l x}, C s l x → StoresOutcome s l x ∧ Alone (protocol cfg) l x) :
    Maintained (gateway cfg) (protocol cfg) Installed C
      fun _ l => ∀ t pc, pcAt l t = some pc → Draining l t pc where
  init _ _ _ h := nomatch h
  start {s t p s' l} h _ _ _ := by
    refine forall_pcAt (fun v hv => ?_) fun u q hu hq => (h u q hq).of_ne hu
    obtain rfl := Option.some.inj hv
    have none : ∀ p', made p' t (.task t (.start p) :: l) = false := fun _ => if_pos rfl
    refine ⟨fun hm => ?_, ?_⟩
    · rw [none] at hm
      cases hm
    · rintro (hm | ⟨i, hp, -⟩)
      · rw [none] at hm
        cases hm
      · rw [show ((protocol {}).enter p).place = .fresh from Pc.enter_place p] at hp
        cases hp
  wake {s t pc i a l} h at_ site _ _ := by
    rw [point_protocol] at at_
    have hp := place_of_site site
    have d := h t pc at_
    refine forall_pcAt (fun v hv => ?_) fun u q hu hq => (h u q hq).of_ne hu
    rw [at_] at hv
    obtain rfl := Option.some.inj hv
    have hm : ∀ p', made p' t (.task t (.wake i a) :: l) = (p' (.wake i a) || made p' t l) :=
      fun _ => made_self fun _ h => (nomatch h)
    refine ⟨fun h1 => ?_, ?_⟩
    · rw [hm, Bool.or_eq_true] at h1
      rcases h1 with h1 | h1
      · exact (runsOut_wake h1).2
      · have hl := d.late h1
        rw [hp] at hl
        show (Place.woken i a).late = true
        cases i with
        | drained | drainedLock => cases hl
        | _ => rfl
    · rintro (h1 | ⟨j, hj, -⟩)
      · rw [hm, Bool.or_eq_true] at h1
        have hon : pc.stuck = false ∧ (pc.restarting.isSome = true ∨ made lifts t l = true) :=
          d.on (h1.elim (fun h2 => .inr ⟨i, hp, (runsOut_wake h2).1⟩) .inl)
        exact ⟨hon.1, hon.2.imp id fun h2 => by rw [hm, h2, Bool.or_true]⟩
      · cases hj
  emit {s t pc e l} h at_ _ _ := by
    rw [point_protocol] at at_
    have d := h t pc at_
    refine forall_pcAt (fun v hv => ?_) fun u q hu hq => (h u q hq).of_ne hu
    rw [at_] at hv
    obtain rfl := Option.some.inj hv
    have hm : ∀ p', made p' t (.task t (.emit e) :: l) = (p' (.emit e) || made p' t l) :=
      fun _ => made_self fun _ h => (nomatch h)
    have hr : made runsOut t (.task t (.emit e) :: l) = made runsOut t l := by
      rw [hm]
      rfl
    refine ⟨fun h1 => late_emit (d.late (hr ▸ h1)), fun h1 => ?_⟩
    have hon : pc.stuck = false ∧ (pc.restarting.isSome = true ∨ made lifts t l = true) := by
      refine d.on (h1.imp (fun h2 => hr ▸ h2) ?_)
      rintro ⟨i, hi, hd⟩
      rcases pc.place_emit e with ⟨hp, -⟩ | ⟨_, _, _, -, -, hp⟩
      · exact ⟨i, hp.symm.trans hi, hd⟩
      · cases hp.symm.trans hi
    refine ⟨(stuck_emit pc e).trans hon.1, ?_⟩
    show (pc.emit e).restarting.isSome = true ∨ _
    rw [hm]
    rcases restarting_emit pc e with h2 | ⟨h2, -⟩
    · rw [h2]
      exact hon.2.imp id fun h3 => by rw [h3, Bool.or_true]
    · exact .inr (by rw [h2, Bool.true_or])
  toss {s t pc q b l} h at_ c := by
    rw [point_protocol] at at_
    have d := h t pc at_
    refine forall_pcAt (fun v hv => ?_) fun u q hu hq => (h u q hq).of_ne hu
    rw [at_] at hv
    obtain rfl := Option.some.inj hv
    have hm : ∀ p', made p' t (.task t (.toss q b) :: l) = (p' (.toss q b) || made p' t l) :=
      fun _ => made_self fun _ h => (nomatch h)
    have hr : made runsOut t (.task t (.toss q b) :: l) = made runsOut t l := by
      rw [hm]
      rfl
    have hp : (pc.toss q b).place = pc.place := place_toss pc q b
    refine ⟨fun h1 => ?_, fun h1 => ?_⟩
    · exact (congrArg Place.late hp).trans (d.late (hr ▸ h1))
    · rcases h1 with h1 | ⟨i, hi, -⟩
      · obtain ⟨hs, hon⟩ := d.on (.inl (hr ▸ h1))
        refine ⟨?_, ?_⟩
        · rcases stuck_toss pc q b with h2 | ⟨rfl, rfl⟩
          · exact h2.trans hs
          · rw [show made runsOut t l = false from (hC c).1] at hr
            rw [hr] at h1
            cases h1
        · refine hon.imp (fun h2 => ?_) fun h2 => by rw [hm, h2, Bool.or_true]
          rwa [show ((protocol {}).next pc (.toss q b)).restarting = pc.restarting from
            (pc.same_toss q b).restarting]
      · refine absurd (hp.symm.trans hi) (place_of_site_none ?_ i)
        exact (hC c).2.2 rfl pc (by rwa [point_protocol])
  park {s t pc i l} h at_ ok _ := by
    have ok : AwaitOk cfg pc s i := ok.1
    rw [point_protocol] at at_
    have d := h t pc at_
    refine forall_pcAt (fun v hv => ?_) fun u q hu hq => (h u q hq).of_ne hu
    rw [at_] at hv
    obtain rfl := Option.some.inj hv
    have hm : ∀ p', made p' t (.task t (.park i) :: l) = (p' (.park i) || made p' t l) :=
      fun _ => made_self fun _ h => (nomatch h)
    have hr : made runsOut t (.task t (.park i) :: l) = made runsOut t l := by
      rw [hm]
      rfl
    refine ⟨fun h1 => ?_, fun h1 => ?_⟩
    · cases hi : i.drains with
      | true =>
        have := (draining_park ok hi).1
        rw [d.late (hr ▸ h1)] at this
        cases this
      | false =>
        cases hl : (Place.parked i).late with
        | true => exact hl
        | false =>
          rw [drains_of_not_late hl] at hi
          cases hi
    · have hon : pc.stuck = false ∧ (pc.restarting.isSome = true ∨ made lifts t l = true) := by
        rcases h1 with h1 | ⟨j, hj, hd⟩
        · exact d.on (.inl (hr ▸ h1))
        · obtain rfl := Place.parked.inj hj
          exact ⟨(draining_park ok hd).2.1, .inl (draining_park ok hd).2.2⟩
      exact ⟨hon.1, hon.2.imp id fun h2 => by rw [hm, h2, Bool.or_true]⟩
  stop {s t pc l} h _ _ _ :=
    forall_pcAt (fun _ hv => (nomatch hv)) fun u q hu hq => (h u q hq).of_ne hu
  drift h _ := fun t pc hpc => ⟨(h t pc hpc).late, (h t pc hpc).on⟩
  crash _ _ _ _ h := nomatch h

/-- The task waits for the wallet lock, or has just waited, after its drain. -/
def Place.drained : Place → Bool
  | .parked .drainedLock | .woken .drainedLock _ => true
  | _ => false

/-- No lease is held, and no task is about to take one during a maintenance. -/
def Still (s : World) (l : List LogItem) : Prop :=
  s.memory.active = ∅ ∧ ∀ u q, pcAt l u = some q → ¬q.Borrowing

/-- While a restart waits for the lock, what was drained stays drained. -/
def Drained (s : World) (l : List LogItem) : Prop :=
  ∀ t pc kind, pcAt l t = some pc → pc.place.drained = true →
    pc.restarting = some (kind, false) → Still s l

/-- No event brings a task behind its drain. -/
theorem drained_emit {pc : Pc} {e : Event} (h : (pc.emit e).place.drained = true) :
    pc.place.drained = true := by
  rcases pc.place_emit e with ⟨hp, -⟩ | ⟨_, _, _, -, -, hp⟩
  · rwa [hp] at h
  · rw [hp] at h
    cases h

/-- Nor into the middle of a confirmation. -/
theorem borrowing_emit {pc : Pc} {e : Event} (h : (pc.emit e).Borrowing) : pc.Borrowing := by
  rcases pc.place_emit e with ⟨hp, -⟩ | ⟨_, _, _, -, -, hp⟩
  · rwa [Pc.Borrowing, hp] at h
  · obtain ⟨row, a, h | h⟩ := h
    · cases hp.symm.trans h
    · cases hp.symm.trans h

/-- A parked task is not in the middle of one. -/
theorem not_borrowing_of_parked {pc : Pc} {i : Site} (h : pc.place = .parked i) : ¬pc.Borrowing := by
  rintro ⟨row, a, hp | hp⟩
  · cases h.symm.trans hp
  · cases h.symm.trans hp

/-- Only a reservation adds to the leases. -/
theorem active_apply {s : World} {t : ℕ} {e : Event} (h : ∀ id, e ≠ .reserve id) :
    (s.apply t e).memory.active ⊆ s.memory.active := by
  cases e with
  | reserve id => exact absurd rfl (h id)
  | unreserve id => exact Finset.erase_subset _ _
  | _ => exact fun _ h => h

/-- During a maintenance that is still, no event adds to the leases. -/
theorem Still.emit {s : World} {l : List LogItem} {t : ℕ} {pc : Pc} {e : Event} (h : Still s l)
    (at_ : pcAt l t = some pc) (ok : EventOk cfg pc s e) (on : s.memory.maintenance = true) :
    Still (s.apply t e) (.task t (.emit e) :: l) := by
  refine ⟨?_, forall_pcAt (fun v hv => ?_) fun u q _ hq => h.2 u q hq⟩
  · by_cases hr : ∃ id, e = .reserve id
    · obtain ⟨id, rfl⟩ := hr
      obtain ⟨-, -, hoff | hb⟩ := ok
      · rw [on] at hoff
        cases hoff
      · exact absurd hb (h.2 t pc at_)
    · refine Finset.subset_empty.1 ((active_apply fun id he => hr ⟨id, he⟩).trans ?_)
      rw [h.1]
  · rw [at_] at hv
    obtain rfl := Option.some.inj hv
    exact fun hb => h.2 t pc at_ (borrowing_emit hb)

/-- What is known of every run besides `Drained`. -/
structure Holdings (s : World) (l : List LogItem) : Prop where
  locks : Locks s (pcAt l)
  restarting : Restarting s (pcAt l)
  leased : Leased s (pcAt l) l
  awaiting : ∀ u q, pcAt l u = some q → q.Awaiting

/-- **Behind its drain a restart meets no lease**, in every run. -/
theorem maintained_drained
    (hC : ∀ {s l x}, C s l x → Holdings s l ∧ Alone (protocol cfg) l x) :
    Maintained (gateway cfg) (protocol cfg) Installed C Drained where
  init _ _ _ _ h := nomatch h
  start {s t p s' l} h fresh may c := by
    have still : Still s l → Still s' (.task t (.start p) :: l) := by
      intro hs
      refine ⟨(memory_begin (t := t) may).2.1.trans hs.1, forall_pcAt (fun v hv => ?_) fun u q _ hq => hs.2 u q hq⟩
      obtain rfl := Option.some.inj hv
      rintro ⟨row, a, hp | hp⟩
      · cases (Pc.enter_place p).symm.trans hp
      · cases (Pc.enter_place p).symm.trans hp
    intro u q kind hq hd hr
    rw [pcAt_task] at hq
    rcases eq_or_ne u t with rfl | hu
    · rw [Function.update_self] at hq
      obtain rfl := Option.some.inj hq
      have hp : ((protocol {}).enter p).place = .fresh := Pc.enter_place p
      rw [hp] at hd
      cases hd
    · rw [Function.update_of_ne hu] at hq
      exact still (h u q kind hq hd hr)
  wake {s t pc i a l} h at_ site _ c := by
    rw [point_protocol] at at_
    have hp := place_of_site site
    have still : Still s l → Still s (.task t (.wake i a) :: l) := by
      intro hs
      refine ⟨hs.1, forall_pcAt (fun v hv => ?_) fun u q _ hq => hs.2 u q hq⟩
      rw [at_] at hv
      obtain rfl := Option.some.inj hv
      -- A task that confirms a record has reserved it.
      have held : ∀ row, i = .acquireRead row ∨ i = .identity (.acquire row) → False := by
        intro row hi
        have hl := ((hC c).1.awaiting t pc at_ i hp).2 row hi
        have := (hC c).1.leased.active row.id (.task t) ⟨pc, at_, hl⟩
        rw [hs.1] at this
        exact absurd this (Finset.notMem_empty _)
      rintro ⟨row, b, hw | hw⟩
      · exact held row (.inl (Place.woken.inj hw).1)
      · exact held row (.inr (Place.woken.inj hw).1)
    intro u q kind hq hd hr
    rw [pcAt_task, at_] at hq
    rcases eq_or_ne u t with rfl | hu
    · rw [Function.update_self] at hq
      obtain rfl := Option.some.inj hq
      refine still (h u pc kind at_ ?_ hr)
      rw [hp]
      cases i with
      | drainedLock => rfl
      | _ => cases hd
    · rw [Function.update_of_ne hu] at hq
      exact still (h u q kind hq hd hr)
  emit {s t pc e l} h at_ ok c := by
    have ok : EventOk cfg pc s e := ok
    rw [point_protocol] at at_
    have on : ∀ {u q kind}, pcAt l u = some q → q.restarting = some (kind, false) →
        s.memory.maintenance = true := fun {u q kind} hq hr =>
      (hC c).1.restarting.maintenance (.running u) ⟨q, hq, by rw [hr]; rfl⟩
    intro u q kind hq hd hr
    rw [pcAt_task, at_] at hq
    rcases eq_or_ne u t with rfl | hu
    · rw [Function.update_self] at hq
      obtain rfl := Option.some.inj hq
      have hr' : pc.restarting = some (kind, false) := by
        rcases restarting_emit pc e with h2 | ⟨-, h2⟩
        · exact h2.symm.trans hr
        · cases h2.symm.trans hr
      exact (h u pc kind at_ (drained_emit hd) hr').emit at_ ok (on at_ hr')
    · rw [Function.update_of_ne hu] at hq
      exact (h u q kind hq hd hr).emit at_ ok (on hq hr)
  toss {s t pc b x l} h at_ c := by
    rw [point_protocol] at at_
    have same : ∀ u q, pcAt (.task t (.toss b x) :: l) u = some q →
        ∃ q', pcAt l u = some q' ∧ q.place = q'.place ∧ q.restarting = q'.restarting := by
      refine forall_pcAt (fun v hv => ?_) fun u q _ hq => ⟨q, hq, rfl, rfl⟩
      rw [at_] at hv
      obtain rfl := Option.some.inj hv
      exact ⟨pc, at_, place_toss pc b x, (pc.same_toss b x).restarting⟩
    intro u q kind hq hd hr
    obtain ⟨q', hq', hp, hr'⟩ := same u q hq
    have hs := h u q' kind hq' (hp ▸ hd) (hr' ▸ hr)
    refine ⟨hs.1, fun v k hk => ?_⟩
    obtain ⟨k', hk', hpk, -⟩ := same v k hk
    rw [Pc.Borrowing, hpk]
    exact hs.2 v k' hk'
  park {s t pc i l} h at_ ok c := by
    have asked : AwaitOk cfg pc s i := ok.1
    rw [point_protocol] at at_
    have still : s.memory.active = ∅ → (∀ u q, u ≠ t → pcAt l u = some q → ¬q.Borrowing) →
        Still s (.task t (.park i) :: l) := by
      refine fun ha hb => ⟨ha, forall_pcAt (fun v hv => ?_) hb⟩
      rw [at_] at hv
      obtain rfl := Option.some.inj hv
      exact not_borrowing_of_parked (i := i) rfl
    intro u q kind hq hd hr
    rw [pcAt_task, at_] at hq
    rcases eq_or_ne u t with rfl | hu
    · rw [Function.update_self] at hq
      obtain rfl := Option.some.inj hq
      have hr' : pc.restarting = some (kind, false) := hr
      cases i with
      | drainedLock =>
        obtain ⟨-, -, kind', immediate, hk, hi⟩ := asked
        obtain ⟨-, rfl⟩ := Prod.mk.inj (Option.some.inj (hk.symm.trans hr'))
        refine still (hi.resolve_left nofun) fun v k hv hk => ?_
        obtain ⟨j, hj⟩ := (hC c).2.1 v k hv (by rwa [point_protocol])
        exact not_borrowing_of_parked (place_of_site hj)
      | _ => cases hd
    · rw [Function.update_of_ne hu] at hq
      have hs := h u q kind hq hd hr
      exact still hs.1 fun v k _ hk => hs.2 v k hk
  stop {s t pc l} h at_ _ _ := by
    have old : ∀ u q, pcAt (.task t .stop :: l) u = some q → pcAt l u = some q :=
      forall_pcAt (fun _ hv => (nomatch hv)) fun u q _ hq => hq
    intro u q kind hq hd hr
    have hs := h u q kind (old u q hq) hd hr
    exact ⟨hs.1, fun v k hk => hs.2 v k (old v k hk)⟩
  drift h _ := fun t pc kind hpc hd hr => h t pc kind hpc hd hr
  crash _ _ _ _ _ h := nomatch h

/-! ### All runs -/

/-- What every run keeps, as the condition of the run taken up again. -/
theorem Run.holdings {s : World} {P : ℕ → Option Pc} {run : Option ℕ} {l : List LogItem}
    (tr : Run cfg C s P run l) :
    Run cfg (fun s l x => (C s l x ∧ Alone (protocol cfg) l x) ∧ Holdings s l) s P run l := by
  refine Traj.knowing (I := Holdings) (fun tr => ?_) (Traj.alone (sited cfg) tr)
  refine ⟨tracked_locks.run tr, tracked_restarting.run tr, Run.leased tr, ?_⟩
  rw [← Run.pcs tr]
  exact (undisturbed_awaiting fun c => c.2).traj tr

/-- What was drained stays drained, in every run. -/
theorem Run.drained {s : World} {P : ℕ → Option Pc} {run : Option ℕ} {l : List LogItem}
    (tr : Run cfg C s P run l) : Drained s l :=
  (maintained_drained fun c => ⟨c.2, c.1.2⟩).traj (Run.holdings tr)

/-- A drain that ran out of time is behind its task, in every run. -/
theorem Run.draining {s : World} {P : ℕ → Option Pc} {run : Option ℕ} {l : List LogItem}
    (tr : Run cfg StoresOutcome s P run l) : ∀ t pc, pcAt l t = some pc → Draining l t pc :=
  (maintained_draining fun c => ⟨c.1.1, c.1.2⟩).traj (Run.holdings tr)

/-- The record of the restart that the run below asks for. -/
def queued : Operation where
  id := 1
  kind := .restart
  state := .queued
  createdAt := 0
  message := "Waiting for active requests and wallet operations"

/-- No write fails that could leave a restart half done. -/
def storesRestart (_ : World) (_ : List LogItem) : LogItem → Bool
  | .task _ (.toss .restart true) => false
  | _ => true

end MorpheusGateway
