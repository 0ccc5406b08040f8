/-
# Runs of the gateway, seen through the protocol

`Run cfg C` are the runs of control points whose entries all satisfy `C`.  What holds
in them holds in all runs of the programs, because every program keeps the protocol:
`Ensures.emit` and `Ensures.park` turn a fact about `Run` into one about the events and
awaits of the gateway, `not_ensures` refutes it with a script.

The lemmas about `apply` say what an event does to the records: `mem_rows_apply` where
a stored record comes from, `row?_apply` what becomes of one that is not terminal.
-/

import MorpheusGateway.Coroutine.Interference
import MorpheusGateway.Protocol.Requests

namespace MorpheusGateway

open Contract

/-! ### Conditions on the items of a run -/

/-- A condition on the items of a run, in the state and the log that they meet. -/
abbrev ItemRule := World → List LogItem → LogItem → Prop

/-- `p` holds at every event. -/
def OnEvent (p : World → List LogItem → ℕ → Event → Prop) : ItemRule
  | s, l, .task t (.emit e) => p s l t e
  | _, _, _ => True

/-- `p` holds whenever a session record is stored. -/
def OnPut (p : World → List LogItem → ℕ → Writer → Row → Prop) : ItemRule :=
  OnEvent fun s l t e => match e with
    | .put w row => p s l t w row
    | _ => True

/-- `p` holds at every await. -/
def OnPark (p : World → List LogItem → ℕ → Site → Prop) : ItemRule
  | s, l, .task t (.park i) => p s l t i
  | _, _, _ => True

/-- `p` holds whenever a task ends. -/
def OnStop (p : World → List LogItem → ℕ → Prop) : ItemRule
  | s, l, .task t .stop => p s l t
  | _, _, _ => True

/-- The condition of every run. -/
def Always : ItemRule := fun _ _ _ => True

/-- **In every run whose items satisfy `C`, they satisfy `Good`.** -/
def Ensures (cfg : Config) (C Good : ItemRule) : Prop :=
  ∀ ⦃m a m'⦄, Runs cfg C m → (gateway cfg).Step m a m' → (∀ x ∈ a, C m.state m.log x) →
    ∀ x ∈ a, Good m.state m.log x

/-- The runs of control points. -/
abbrev Run (cfg : Config) (C : ItemRule) :
    World → (ℕ → Option Pc) → Option ℕ → List LogItem → Prop :=
  (protocol cfg).Traj (gateway cfg) Installed C

/-- The control point of a task, as the log tells it. -/
def pcAt (l : List LogItem) (t : ℕ) : Option Pc := (protocol {}).point t l

/-- The log tells the control points, whatever the configuration. -/
theorem point_protocol (cfg : Config) (t : ℕ) (l : List LogItem) :
    (protocol cfg).point t l = pcAt l t := by
  induction l with
  | nil => rfl
  | cons x l ih =>
    cases x with
    | task u a =>
      unfold pcAt at ih ⊢
      simp only [point, ih]
      rfl
    | drift d => exact ih
    | crash => rfl

variable {cfg : Config} {C Good : ItemRule}

/-- The control points of a run are those that its log tells. -/
theorem Run.pcs {s : World} {P : ℕ → Option Pc} {run : Option ℕ} {l : List LogItem}
    (tr : Run cfg C s P run l) : P = pcAt l := by
  rw [Traj.point_eq tr]
  exact funext fun t => point_protocol cfg t l

/-- An entry moves the control point of its task. -/
theorem pcAt_task (l : List LogItem) (t : ℕ) (a : LogEntry) :
    pcAt (.task t a :: l) = Function.update (pcAt l) t ((protocol {}).advance a (pcAt l t)) := by
  funext u
  rcases eq_or_ne u t with rfl | hu
  · rw [Function.update_self]
    exact if_pos rfl
  · rw [Function.update_of_ne hu]
    exact if_neg (Ne.symm hu)

/-- What holds of the control points holds after one of them moved, if it holds of that. -/
theorem forall_pcAt {J : ℕ → Pc → Prop} {l : List LogItem} {t : ℕ} {a : LogEntry}
    (hv : ∀ v, (protocol {}).advance a (pcAt l t) = some v → J t v)
    (h : ∀ u q, u ≠ t → pcAt l u = some q → J u q) :
    ∀ u q, pcAt (.task t a :: l) u = some q → J u q := by
  intro u q hq
  rw [pcAt_task] at hq
  rcases eq_or_ne u t with rfl | hu
  · exact hv q (by rwa [Function.update_self] at hq)
  · exact h u q hu (by rwa [Function.update_of_ne hu] at hq)

/-- What holds at the events of the runs of control points holds at those of all runs. -/
theorem Ensures.emit {p : World → List LogItem → ℕ → Event → Prop}
    (h : ∀ {s P l t pc e}, Run cfg C s P (some t) l → pcAt l t = some pc → EventOk cfg pc s e →
      C s l (.task t (.emit e)) → p s l t e) : Ensures cfg C (OnEvent p) := by
  intro m a m' r st hC x hx
  obtain rfl : a = some x := hx
  match x with
  | .task t (.emit e) =>
    obtain ⟨P, pc, tr, hP, ok⟩ := ok_of_emit (protocol_holds cfg) r st
    exact h tr (by rw [← hP, Run.pcs tr]) ok (hC _ rfl)
  | .task t (.start _) | .task t (.wake ..) | .task t (.toss ..) | .task t (.park _)
  | .task t .stop | .drift _ | .crash => exact trivial

/-- The same for the records that are stored. -/
theorem Ensures.put {p : World → List LogItem → ℕ → Writer → Row → Prop}
    (h : ∀ {s P l t pc w row}, Run cfg C s P (some t) l → pcAt l t = some pc →
      RowWrite cfg pc s row w → C s l (.task t (.emit (.put w row))) → p s l t w row) :
    Ensures cfg C (OnPut p) := by
  refine Ensures.emit fun {s P l t pc e} tr hpc ok c => ?_
  cases e with
  | put w row => exact h tr hpc ok c
  | _ => exact trivial

/-- What holds at the awaits of the runs of control points holds at those of all runs. -/
theorem Ensures.park {p : World → List LogItem → ℕ → Site → Prop}
    (h : ∀ {s P l t pc i}, Run cfg C s P (some t) l → pcAt l t = some pc → AwaitOk cfg pc s i →
      C s l (.task t (.park i)) → p s l t i) : Ensures cfg C (OnPark p) := by
  intro m a m' r st hC x hx
  obtain rfl : a = some x := hx
  match x with
  | .task t (.park i) =>
    obtain ⟨P, pc, tr, hP, ok⟩ := ok_of_park (protocol_holds cfg) r st
    exact h tr (by rw [← hP, Run.pcs tr]) ok.1 (hC _ rfl)
  | .task t (.start _) | .task t (.wake ..) | .task t (.toss ..) | .task t (.emit _)
  | .task t .stop | .drift _ | .crash => exact trivial

/-- The same for the ends of the tasks. -/
theorem Ensures.stop {p : World → List LogItem → ℕ → Prop}
    (h : ∀ {s P l t pc}, Run cfg C s P (some t) l → pcAt l t = some pc → Settled pc s →
      C s l (.task t .stop) → p s l t) : Ensures cfg C (OnStop p) := by
  intro m a m' r st hC x hx
  obtain rfl : a = some x := hx
  match x with
  | .task t .stop =>
    obtain ⟨P, pc, tr, hP, ok⟩ := ok_of_stop (protocol_holds cfg) r st
    exact h tr (by rw [← hP, Run.pcs tr]) ok (hC _ rfl)
  | .task t (.start _) | .task t (.wake ..) | .task t (.toss ..) | .task t (.emit _)
  | .task t (.park _) | .drift _ | .crash => exact trivial

/-- `p` holds between the pieces of the tasks. -/
def Between (p : World → List LogItem → Prop) : ItemRule
  | s, l, .task _ (.start _) | s, l, .task _ (.wake ..) | s, l, .drift _ => p s l
  | _, _, _ => True

/-- What holds in all runs holds at all their items. -/
theorem Ensures.always {p : World → List LogItem → Prop}
    (h : ∀ {s P run l}, Run cfg C s P run l → p s l) : Ensures cfg C fun s l _ => p s l := by
  intro m a m' r _ _ x _
  obtain ⟨P, tr, -⟩ := reach_traj (protocol_holds cfg) r
  exact h tr

/-- What holds in all runs while no task runs holds between the pieces. -/
theorem Ensures.between {p : World → List LogItem → Prop}
    (h : ∀ {s P l}, Run cfg C s P none l → p s l) : Ensures cfg C (Between p) := by
  intro m a m' r st _ x hx
  obtain rfl : a = some x := hx
  obtain ⟨P, tr, -⟩ := reach_traj (protocol_holds cfg) r
  match x with
  | .task t (.start _) | .task t (.wake ..) | .drift _ =>
    cases st
    exact h tr
  | .task t (.toss ..) | .task t (.park _) | .task t (.emit _) | .task t .stop | .crash =>
    exact trivial

/-- Two guarantees are one. -/
theorem Ensures.and {Good' : ItemRule} (h : Ensures cfg C Good) (h' : Ensures cfg C Good') :
    Ensures cfg C fun s l x => Good s l x ∧ Good' s l x :=
  fun _ _ _ r st hC x hx => ⟨h r st hC x hx, h' r st hC x hx⟩

/-- **A run that meets the condition refutes what the check `good` of its last move would have
to accept.** -/
theorem not_ensures_while (chk good : World → List LogItem → LogItem → Bool)
    (hC : ∀ s l x, chk s l x = true → C s l x) (h : ∀ {s l x}, Good s l x → good s l x = true)
    (ms : List (System.Move Answer Program Drift)) (m : System.Move Answer Program Drift)
    (hm : (((gateway cfg).script chk ms (System.launch {})).any fun d =>
      ((gateway cfg).exec chk d m).isSome && ((gateway cfg).exec good d m).isNone) = true) :
    ¬Ensures cfg C Good := by
  intro hall
  have start : (gateway cfg).Reach Installed C (System.launch {}) := .init ⟨0, 0, rfl⟩
  refine System.not_passes hC start hm fun c a c' r st ok x hx => ?_
  exact h (hall r st ok x hx)

/-- **A run refutes what the check `good` of its last move would have to accept.** -/
theorem not_ensures (good : World → List LogItem → LogItem → Bool)
    (h : ∀ {s l x}, Good s l x → good s l x = true)
    (ms : List (System.Move Answer Program Drift)) (m : System.Move Answer Program Drift)
    (hm : (((gateway cfg).script (fun _ _ _ => true) ms (System.launch {})).any fun d =>
      ((gateway cfg).exec (fun _ _ _ => true) d m).isSome &&
        ((gateway cfg).exec good d m).isNone) = true) :
    ¬Ensures cfg Always Good :=
  not_ensures_while (fun _ _ _ => true) good (fun _ _ _ _ => trivial) h ms m hm

/-- A run that meets the condition comes to an item of the kind `hit`, of which `Good` holds. -/
def Exhibits (cfg : Config) (C Good : ItemRule) (hit : List LogItem → LogItem → Bool) : Prop :=
  ∃ m x m', Runs cfg C m ∧ (gateway cfg).Step m (some x) m' ∧ C m.state m.log x ∧
    Good m.state m.log x ∧ hit m.log x = true

/-- **A run that meets the condition shows what is ensured** of the items in its log. -/
theorem Ensures.exhibit (h : Ensures cfg C Good) {hit : List LogItem → LogItem → Bool}
    (r : ∃ m, Runs cfg C m ∧ System.logged hit m.log = true) : Exhibits cfg C Good hit := by
  obtain ⟨m, r, hl⟩ := r
  obtain ⟨d, x, d', rd, st, hC, hhit⟩ := r.step_of_logged hl
  have ok : ∀ y ∈ some x, C d.state d.log y := by
    rintro y ⟨⟩
    exact hC
  exact ⟨d, x, d', rd, st, hC, h rd st ok x rfl, hhit⟩

/-- A script that the check of the condition accepts is a run, with what its log shows. -/
theorem exists_run (chk : World → List LogItem → LogItem → Bool)
    (hC : ∀ s l x, chk s l x = true → C s l x) (p : List LogItem → Bool)
    (ms : List (System.Move Answer Program Drift))
    (hm : (((gateway cfg).script chk ms (System.launch {})).any fun d => p d.log) = true) :
    ∃ m, Runs cfg C m ∧ p m.log = true := by
  have start : (gateway cfg).Reach Installed C (System.launch {}) := .init ⟨0, 0, rfl⟩
  obtain ⟨d, hd, hp⟩ := (Option.any_eq_true _ _).1 hm
  exact ⟨d, System.reach_script hC start hd, hp⟩

/-! ### What events do to the session records -/

/-- The record that an event stores, and its writer. -/
def Event.stored : Event → Option (Writer × Row)
  | .put w row => some (w, row)
  | _ => none

/-- An event that stores a record is its `put`. -/
theorem Event.eq_put {e : Event} {w : Writer} {row : Row} (h : e.stored = some (w, row)) :
    e = .put w row := by
  cases e with
  | put w' row' =>
    obtain ⟨rfl, rfl⟩ := Prod.mk.inj (Option.some.inj h)
    rfl
  | _ => cases h

/-- What holds whenever a record is stored holds when this one is. -/
theorem OnPut.stored {p : World → List LogItem → ℕ → Writer → Row → Prop} {s : World}
    {l : List LogItem} {t : ℕ} {e : Event} (h : OnPut p s l (.task t (.emit e))) {w : Writer}
    {row : Row} (he : e.stored = some (w, row)) : p s l t w row := by
  obtain rfl := Event.eq_put he
  exact h

/-- A stored record was stored before, or is the one that the event stores. -/
theorem mem_rows_apply {s : World} {t : ℕ} {e : Event} {r : Row}
    (h : r ∈ (s.apply t e).store.sessions.rows) :
    r ∈ s.store.sessions.rows ∧ (∀ w row, e.stored = some (w, row) → r.id ≠ row.id) ∨
      ∃ w, e.stored = some (w, r) := by
  cases e with
  | put w row =>
    rcases Table.mem_put.1 h with rfl | ⟨hr, hne⟩
    · exact .inr ⟨w, rfl⟩
    · refine .inl ⟨hr, fun w' row' he => ?_⟩
      obtain ⟨rfl, rfl⟩ := Prod.mk.inj (Option.some.inj he)
      exact hne
  | prune => exact .inl ⟨List.mem_of_mem_filter h, fun _ _ he => nomatch he⟩
  | _ => exact .inl ⟨h, fun _ _ he => nomatch he⟩

/-- A record that is not terminal stays until it is replaced. -/
theorem row?_apply {s : World} {t : ℕ} {e : Event} {r : Row} {id : RowId} (h : s.row? id = some r)
    (live : r.state.terminal = false) :
    (s.apply t e).row? id = some r ∧ (∀ w row, e.stored = some (w, row) → row.id ≠ id) ∨
      ∃ w row, e.stored = some (w, row) ∧ row.id = id ∧ (s.apply t e).row? id = some row := by
  cases e with
  | put w row =>
    by_cases hid : id = row.id
    · subst hid
      exact .inr ⟨w, row, rfl, rfl, Table.get_put_self _ _⟩
    · refine .inl ⟨(Table.get_put_ne hid).trans h, fun w' row' he => ?_⟩
      obtain ⟨rfl, rfl⟩ := Prod.mk.inj (Option.some.inj he)
      exact Ne.symm hid
  | prune =>
    refine .inl ⟨(Table.get_filter _ _ _).trans ?_, fun _ _ he => nomatch he⟩
    rw [show s.store.sessions.get id = some r from h, Option.filter_some, if_pos (by simp [live])]
  | _ => exact .inl ⟨h, fun _ _ he => nomatch he⟩

/-- The writers whose one write an answer allows, with what they have still to judge. -/
def Writer.spends : Writer → Option (List Row)
  | .bind | .openStart .. => some []
  | .receiptPass _ rest | .receiptPassError _ rest => some rest
  | _ => none

/-- An event leaves the place as it was, or spends the answer. -/
theorem Pc.place_emit (pc : Pc) (e : Event) :
    (pc.emit e).place = pc.place ∧ (∀ w row, e.stored = some (w, row) → w.spends = none) ∨
      ∃ w row rest, e.stored = some (w, row) ∧ w.spends = some rest ∧
        (pc.emit e).place = .spent rest := by
  cases e with
  | put w row =>
    cases w with
    | bind | openStart | receiptPass | receiptPassError => exact .inr ⟨_, row, _, rfl, rfl, rfl⟩
    | _ =>
      refine .inl ⟨rfl, fun w' row' he => ?_⟩
      obtain ⟨rfl, rfl⟩ := Prod.mk.inj (Option.some.inj he)
      rfl
  | attempt a =>
    refine .inl ⟨?_, fun _ _ he => by cases he⟩
    simp only [Pc.emit]
    split
    all_goals rfl
  | maintenance on =>
    refine .inl ⟨?_, fun _ _ he => by cases he⟩
    cases on
    all_goals rfl
  | putOperation w op =>
    refine .inl ⟨?_, fun _ _ he => by cases he⟩
    cases w
    all_goals rfl
  | spawn handle w =>
    refine .inl ⟨?_, fun _ _ he => by cases he⟩
    cases w
    all_goals rfl
  | _ => exact .inl ⟨rfl, fun _ _ he => by cases he⟩

/-- A program starts at no await. -/
@[simp] theorem Pc.enter_place (p : Program) : (Pc.enter p).place = .fresh := by
  cases p with
  | task handle w =>
    cases w
    all_goals rfl
  | _ => rfl

/-- A task that starts finds the store as it was. -/
theorem store_begin {s s' : World} {t : ℕ} {p : Program} (h : s.begin t p = some s') :
    s'.store = s.store := by
  cases p with
  | run | task =>
    simp only [World.begin] at h
    split at h
    all_goals cases h
    rfl
  | _ =>
    simp only [World.begin] at h
    split at h
    all_goals cases h
    rfl

/-- Nor does it find another identity. -/
theorem identity_begin {s s' : World} {t : ℕ} {p : Program} (h : s.begin t p = some s') :
    s'.memory.identity = s.memory.identity := by
  cases p with
  | run | task =>
    simp only [World.begin] at h
    split at h
    all_goals cases h
    rfl
  | _ =>
    simp only [World.begin] at h
    split at h
    all_goals cases h
    rfl

/-- The wallet in memory is that of the installation. -/
def OwnWallet (s : World) : Prop :=
  ∀ i, s.memory.identity = some i → ∃ j, s.store.installation = some j ∧ j.wallet = i.wallet

/-- **The wallet is the one of the installation**, in every run. -/
theorem maintained_ownWallet :
    Maintained (gateway cfg) (protocol cfg) Installed C fun s _ => OwnWallet s where
  init {s} h i hi := by
    obtain ⟨_, _, rfl⟩ := h
    cases hi
  start {s t p s' l} h _ may _ i hi := by
    rw [identity_begin (t := t) may] at hi
    rw [store_begin (t := t) may]
    exact h i hi
  wake h _ _ _ _ := h
  emit {s t pc e l} h _ ok _ := by
    have ok : EventOk cfg pc s e := ok
    cases e with
    | installation j =>
      intro i hi
      obtain ⟨j', hj', -⟩ := h i hi
      exact nomatch (show s.store.installation = none from ok).symm.trans hj'
    | identity k =>
      intro i hi
      obtain rfl := Option.some.inj hi
      exact ok
    | _ => exact h
  toss h _ _ := h
  park h _ _ _ := h
  stop h _ _ _ := h
  drift h _ := h
  crash _ _ i hi := by cases hi

/-- **The gateway works in the wallet of its installation.** -/
theorem Run.ownWallet {s : World} {P : ℕ → Option Pc} {run : Option ℕ} {l : List LogItem}
    (tr : Run cfg C s P run l) : OwnWallet s :=
  maintained_ownWallet.traj tr

/-- A session that was validated is in the wallet of the node. -/
theorem sameSession_of_validTruth {identity : Option Identity} {row : Row} {truth : Json}
    (h : Sessions.validTruth identity row truth = .ok ()) :
    ∃ i, identity = some i ∧ Sessions.sameSession i row truth = true := by
  unfold Sessions.validTruth at h
  cases identity with
  | none => cases h
  | some i =>
    refine ⟨i, rfl, ?_⟩
    by_contra hne
    rw [if_pos (by simpa using hne)] at h
    cases h

/-- A rewritten record is the same session. -/
theorem sameSession_congr {i : Identity} {r row : Row} {truth : Json} (h : SameSession r row)
    (hc : row.chainId = r.chainId) :
    Sessions.sameSession i row truth = Sessions.sameSession i r truth := by
  obtain ⟨-, hm, hp, hb⟩ := h
  simp only [Sessions.sameSession, hm, hp, hb, hc]

/-! ### What a place says of the store -/

/-- A control point with a site is parked there. -/
theorem place_of_site {pc : Pc} {i : Site} (h : pc.site = some i) : pc.place = .parked i := by
  unfold Pc.site at h
  split at h
  · rename_i hp
    rw [hp, Option.some.inj h]
  · cases h

/-- A task that is not suspended is at no await. -/
theorem place_of_site_none {pc : Pc} (h : pc.site = none) (i : Site) : pc.place ≠ .parked i := by
  intro hp
  rw [Pc.site, hp] at h
  cases h

/-- An operation that may fail moves nobody. -/
theorem place_toss (pc : Pc) (q : StoreCall) (b : Bool) : (pc.toss q b).place = pc.place := by
  unfold Pc.toss
  split_ifs
  all_goals rfl

/-- Only an await suspends a task of the gateway. -/
theorem sited (cfg : Config) : Sited (protocol cfg) where
  enter p := by
    show (Pc.enter p).site = none
    rw [Pc.site, Pc.enter_place]
  wake _ _ _ := rfl
  emit {pc} e h := by
    show (pc.emit e).site = none
    rcases pc.place_emit e with ⟨hp, -⟩ | ⟨_, _, rest, -, -, hp⟩
    · rw [Pc.site, hp]
      exact h
    · rw [Pc.site, hp]
  toss {pc} q b h := by
    show (pc.toss q b).site = none
    rw [Pc.site, place_toss]
    exact h
  park _ _ := rfl

/-- **The rule for what a task relies on across its awaits.**  `J` relates the store to the
place of a task.  Its own events, its awaits and the events of the other tasks keep it. -/
theorem undisturbed_place {J : Store → Place → Prop} (fresh : ∀ st, J st .fresh)
    (wake : ∀ {st i a}, J st (.parked i) → J st (.woken i a))
    (emit : ∀ {s t pc e l}, J s.store pc.place → pcAt l t = some pc → EventOk cfg pc s e →
      C s l (.task t (.emit e)) → J (s.apply t e).store (pc.emit e).place)
    (other : ∀ {s t pc e l u q}, u ≠ t → J s.store q.place → pcAt l u = some q →
      pcAt l t = some pc → EventOk cfg pc s e → C s l (.task t (.emit e)) →
      J (s.apply t e).store q.place)
    (park : ∀ {s t pc i l}, J s.store pc.place → pcAt l t = some pc → AwaitOk cfg pc s i →
      C s l (.task t (.park i)) → J s.store (.parked i)) :
    Undisturbed (gateway cfg) (protocol cfg) C fun s _ pc => J s.store pc.place where
  enter {s t p s' l} _ _ := by
    show J s'.store (Pc.enter p).place
    rw [Pc.enter_place]
    exact fresh _
  begin {s t p s' u q l} may h _ := by
    rwa [store_begin (t := t) may]
  wake {s t pc i a l} h site _ _ := by
    rw [place_of_site site] at h
    exact wake h
  emit {s t pc e l} h at_ ok c := emit h (by rwa [← point_protocol cfg]) ok c
  other {s t pc e l u q} ne hu atu _ at_ ok c :=
    other ne hu (by rwa [← point_protocol cfg]) (by rwa [← point_protocol cfg]) ok c
  toss {s t pc q b l} h _ := by
    show J s.store (pc.toss q b).place
    rwa [place_toss]
  park {s t pc i l} h at_ ok c := park h (by rwa [← point_protocol cfg]) ok.1 c
  drift h _ := h

/-! ### Runs in which nobody interferes -/

instance (old row : Row) : Decidable (SameSession old row) :=
  inferInstanceAs (Decidable (_ ∧ _ ∧ _ ∧ _))

/-- The tasks that were started. -/
def tasks (l : List LogItem) : List ℕ :=
  l.filterMap fun x => match x with
    | .task t (.start _) => some t
    | _ => none

/-- A task that has a control point was started. -/
theorem mem_tasks {l : List LogItem} {t : ℕ} {pc : Pc} (h : pcAt l t = some pc) : t ∈ tasks l := by
  induction l generalizing pc with
  | nil => cases h
  | cons x l ih =>
    cases x with
    | drift d => exact ih h
    | crash => cases h
    | task u a =>
      rw [pcAt_task] at h
      rcases eq_or_ne t u with rfl | hu
      · rw [Function.update_self] at h
        cases a with
        | start p => exact List.mem_cons_self
        | stop => cases h
        | emit e =>
          obtain ⟨q, hq, -⟩ := Option.map_eq_some_iff.1 h
          exact ih hq
        | toss c b =>
          obtain ⟨q, hq, -⟩ := Option.map_eq_some_iff.1 h
          exact ih hq
        | wake i r =>
          obtain ⟨q, hq, -⟩ := Option.map_eq_some_iff.1 h
          exact ih hq
        | park i =>
          obtain ⟨q, hq, -⟩ := Option.map_eq_some_iff.1 h
          exact ih hq
      · rw [Function.update_of_ne hu] at h
        cases a with
        | start p => exact List.mem_cons_of_mem _ (ih h)
        | _ => exact ih h

/-- The control points of all tasks pass the check. -/
def everyPoint (p : ℕ → Pc → Bool) (l : List LogItem) : Bool :=
  (tasks l).all fun t => (pcAt l t).all (p t)

/-- What passes for all passes for each. -/
theorem everyPoint_spec {p : ℕ → Pc → Bool} {l : List LogItem} (h : everyPoint p l = true) {t : ℕ}
    {pc : Pc} (at_ : pcAt l t = some pc) : p t pc = true := by
  have hp := List.all_eq_true.1 h t (mem_tasks at_)
  rwa [at_] at hp

/-- The copy of the record is of the session that the record is of. -/
def sameCopy (r row : Row) : Bool := SameSession r row && row.chainId = r.chainId

/-- Whether the task `t`, which stores `row`, leaves one at `pc` alone. -/
def apart (t : ℕ) (w : Writer) (row : Row) (u : ℕ) (pc : Pc) : Bool :=
  (pc.place.preflight.isNone || (u = t && w.spends.isSome)) &&
  pc.place.confirming.all (fun r => sameCopy r row) &&
  (pc.place.binding.isNone || (u = t && match w with
    | .bind => true
    | _ => false))

/-- A check that is stricter than the conditions of the guarantees below: no record is stored,
and no policy saved, that anybody else still goes by a copy of, a key's token is new, and what
gives back a lease does not fail. -/
def careful (s : World) (l : List LogItem) : LogItem → Bool
  | .task t (.emit (.put w row)) => everyPoint (apart t w row) l
  | .task _ (.emit (.policy p)) =>
    (p :: s.store.saved).all fun q => q.models.all fun m => !isHash (lower m.aliasName)
  | .task _ (.park (.acquireRead r)) => (s.store.sessions.get r.id).all fun q => sameCopy r q
  | .task _ (.park (.bindRead _)) => s.store.sessions.rows.all fun q => !q.state.terminal
  | .task _ (.start (.createKey key _)) => l.all fun
    | .task _ (.emit (.key k)) => k.token ≠ key.token
    | _ => true
  | .task _ (.toss q true) => q ≠ .queueRead ∧ q ≠ .handler
  | _ => true

section Careful

variable {s : World} {l : List LogItem} {t : ℕ}

/-- A record is stored that leaves everybody's copies alone. -/
theorem careful_put {w : Writer} {row : Row}
    (h : careful s l (.task t (.emit (.put w row))) = true) {u : ℕ} {pc : Pc}
    (at_ : pcAt l u = some pc) : apart t w row u pc = true :=
  everyPoint_spec h at_

/-- No record that is bound is out of use. -/
theorem careful_bindRead {r : Row} (h : careful s l (.task t (.park (.bindRead r))) = true) :
    ∀ q ∈ s.store.sessions.rows, q.state.terminal = false := by
  rw [careful, List.all_eq_true] at h
  exact fun q hq => by simpa using h q hq

/-- The token of a new key is new. -/
theorem careful_createKey {key k : ApiKey} {idem : Option String} {u : ℕ}
    (h : careful s l (.task t (.start (.createKey key idem))) = true)
    (hk : .task u (.emit (.key k)) ∈ l) : k.token ≠ key.token := by
  rw [careful, List.all_eq_true] at h
  simpa using h _ hk

/-- The queue and the handling of a failed request read and write what they must. -/
theorem careful_toss {q : StoreCall} (h : careful s l (.task t (.toss q true)) = true) :
    q ≠ .queueRead ∧ q ≠ .handler := by
  simpa [careful] using h

end Careful

/-! ### A run to start from

One model with one bid, offered to a key `t`; the answers of a node that works. -/

namespace Sample

/-- A hexadecimal number of `n` equal digits. -/
def hex (n : ℕ) (c : Char) : String := "0x" ++ String.ofList (List.replicate n c)

def wallet : String := hex 40 'a'

def provider : String := hex 40 'b'

def modelId : String := hex 64 'c'

def bidId : String := hex 64 'd'

def sid : String := hex 64 'e'

/-- A successful answer with these fields. -/
def ok (fields : List (String × Json)) : Answer := .response 200 (some (.obj fields))

def identity : Answer := ok [
  ("DerivedConfig", .obj [("WalletAddress", .str wallet), ("ChainID", .num 1)]),
  ("Version", .str "7.11.0"), ("GatewayCapabilities", .arr [.str "stake-limit-v1"])]

def balances : Answer := ok [("mor", .str "1000000000000000000000"), ("eth", .str "1000000000000000000")]

def stakes : Answer := ok [("available", .str "0"), ("hold", .str "0")]

def models : Answer := ok [("models", .arr [.obj [("Id", .str modelId), ("ModelType", .str "LLM")]])]

def bidFields : Json := .obj [("Id", .str bidId), ("Provider", .str provider),
  ("ModelAgentId", .str modelId), ("PricePerSecond", .num 1), ("DeletedAt", .num 0)]

def rated : Answer := ok [("bids", .arr [.obj [("Bid", bidFields), ("Score", .num 1)]])]

def bid : Answer := ok [("bid", bidFields)]

def supply : Answer := ok [("supply", .str "1000")]

def budget : Answer := ok [("budget", .str "1000")]

/-- The session on the chain, open or closed. -/
def session (closedAt : ℤ) : Answer := ok [("session", .obj [("Id", .str sid), ("User", .str wallet),
  ("ModelAgentId", .str modelId), ("Provider", .str provider), ("BidID", .str bidId),
  ("EndsAt", .num 100000), ("ClosedAt", .num closedAt), ("Stake", .num 5), ("OpenedAt", .num 1)])]

/-- The answer to the opening POST. -/
def posted : Answer := ok [("sessionID", .str sid)]

def policy : Policy where
  models := [{ id := modelId, aliasName := "m" }]
  unique_ids := by decide +kernel
  unique_aliases := by decide +kernel
  alias_not_id := by decide +kernel

abbrev Script := List (System.Move Answer Program Drift)

/-- The key that the requests come with. -/
def key : ApiKey where
  token := "t"
  id := "k"

/-- The process starts, and the policy and a key are stored. -/
def boot (p : Policy) (key : ApiKey := key) : Script := [
  .start 0 .run [], .wake 0 identity [], .wake 0 identity [], .wake 0 balances [],
  .start 1 (.putPolicy p) [], .start 2 (.createKey key none) []]

/-- The chat request of the script. -/
def chat (model : String) : Program := .chat { token := "t", body := some (model, false), rounds := 5 }

/-- The task 3 is a chat request for `model` that waits for the opener, task 4, which has its
last read before the opening POST to make. -/
def checking (p : Policy) (model : String) (key : ApiKey := key) : Script := boot p key ++ [
  .start 3 (chat model) [], .wake 3 .done [],
  .start 4 (.task 1 (.opener modelId 1)) [], .wake 4 identity [], .wake 4 models [],
  .wake 4 rated [], .wake 4 bid [], .wake 4 balances [], .wake 4 supply [], .wake 4 budget []]

/-- The opening POST was sent. -/
def openingOf (p : Policy) (model : String) (key : ApiKey := key) : Script :=
  checking p model key ++ [.wake 4 stakes []]

def opening : Script := openingOf policy "m"

/-- The POST was not answered. -/
def uncertain : Script := opening ++ [.wake 4 .timeout []]

/-- The session was opened, and the request has reserved it and awaits the chain read. -/
def reserved (p : Policy) (model : String) (key : ApiKey := key) : Script :=
  openingOf p model key ++ [.wake 4 posted [], .wake 4 (session 0) [], .wake 3 .done [],
    .wake 3 .done [], .wake 3 identity []]

/-- Somebody is revoked; an opening stays uncertain until it is bound, and the session is lent to a
request. -/
def day : Script := boot policy ++ [
  .start 3 (.createKey { token := "u", id := "r" } none) [], .start 4 (.revokeKey "r") [],
  .start 5 (.prewarm modelId 5) [], .start 6 (.task 0 (.opener modelId 1)) [],
  .wake 6 identity [], .wake 6 models [], .wake 6 rated [], .wake 6 bid [], .wake 6 balances [],
  .wake 6 supply [], .wake 6 budget [], .wake 6 stakes [], .wake 6 .timeout [],
  .start 7 (.bind (.uuid 1) sid) [], .wake 7 identity [], .wake 7 (session 0) [],
  .start 8 (chat "m") [], .wake 8 .done [], .wake 8 identity [], .wake 8 (session 0) []]

/-- An opening is stored. -/
def opens (_ : List LogItem) : LogItem → Bool
  | .task _ (.emit (.put (.openStart ..) _)) => true
  | _ => false

/-- A record is bound. -/
def binds (_ : List LogItem) : LogItem → Bool
  | .task _ (.emit (.put .bind _)) => true
  | _ => false

/-- A request is dispatched after a key was revoked. -/
def dispatches (l : List LogItem) : LogItem → Bool
  | .task _ (.park (.dispatch ..)) => l.any fun
    | .task _ (.emit (.key k)) => !k.enabled
    | _ => false
  | _ => false

/-- **A day on which nobody interferes**, and which comes to all of these. -/
theorem day_run : ∃ m, Runs {} (fun s l x => careful s l x = true) m ∧
    ([opens, binds, dispatches].all fun hit => System.logged hit m.log) = true :=
  exists_run careful (fun _ _ _ h => h) (fun l => [opens, binds, dispatches].all
    fun hit => System.logged hit l) day (by decide +kernel)

/-- What one of the steps of the day shows under a weaker condition. -/
theorem day_exhibits {C : ItemRule} (hC : ∀ s l x, careful s l x = true → C s l x)
    {hit : List LogItem → LogItem → Bool} (h : hit ∈ [opens, binds, dispatches]) :
    ∃ m, Runs {} C m ∧ System.logged hit m.log = true := by
  obtain ⟨m, r, hl⟩ := day_run
  exact ⟨m, r.mono hC, List.all_eq_true.1 hl hit h⟩

end Sample

end MorpheusGateway
