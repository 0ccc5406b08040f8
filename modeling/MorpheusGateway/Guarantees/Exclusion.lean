/-
# One wallet transaction at a time, one request for each session

The wallet lock is held from before the POST of a transaction until its outcome is stored, so
no second transaction is sent meanwhile; and the record of the transaction is stored, in the
state that says it may have been sent, before the POST.

A lease has one holder: a record is reserved only while nobody holds it, and given back by
its holder alone.  A request is dispatched to the session that it holds.
-/

import MorpheusGateway.Guarantees.Restarting

namespace MorpheusGateway

open Contract

variable {cfg : Config} {C : ItemRule}

/-! ### Wallet transactions -/

/-- The task sends a wallet transaction. -/
def sendsPost : LogEntry → Bool
  | .park i => i.walletPost
  | _ => false

/-- The task has given the wallet lock back, or ends, or is a new one. -/
def freesWallet : LogEntry → Bool
  | .start _ | .stop | .emit .unlock => true
  | _ => false

/-- The task has sent a wallet transaction and not given the wallet lock back since. -/
def posting (t : ℕ) : List LogItem → Bool
  | [] | .crash :: _ => false
  | .drift _ :: l => posting t l
  | .task u a :: l =>
    if u = t then !freesWallet a && (sendsPost a || posting t l) else posting t l

/-- The record of the transaction is stored as one that may have been sent. -/
def Site.Intended (s : World) : Site → Prop
  | .openPost row _ limit => s.row? row.id = some row ∧ row.state = .opening ∧ row.chainId = none ∧
      row.stakeWei = toString limit
  | .closePost row => s.row? row.id = some row ∧ row.state = .closing ∧
      row.closeOperationId.isSome = true ∧ ClearRows s (some row.id) ∧ ClearOperations s
  | .withdrawPost op => s.store.operations.get op.id = some op ∧ op.kind = .withdraw ∧
      op.state = .submitting ∧ ClearRows s none
  | _ => True

/-- A wallet transaction is sent under the lock, with its record stored, and with no other one
whose outcome is not stored. -/
def SendsAlone : ItemRule := OnPark fun s l t i => i.walletPost = true →
  s.memory.lock = some t ∧ i.Intended s ∧ ∀ u, u ≠ t → posting u l = false

/-- What others do does not end a POST. -/
theorem posting_of_ne {t u : ℕ} {a : LogEntry} {l : List LogItem} (h : u ≠ t) :
    posting t (.task u a :: l) = posting t l := if_neg h

/-- A task is posting when it has sent a POST, until the wallet is free. -/
theorem posting_self {t : ℕ} {a : LogEntry} {l : List LogItem}
    (h : posting t (.task t a :: l) = true) :
    freesWallet a = false ∧ (sendsPost a = true ∨ posting t l = true) := by
  rw [posting, if_pos rfl] at h
  simpa using h

/-- A task that has sent a transaction holds the lock. -/
def Posting (l : List LogItem) : Prop :=
  ∀ t, posting t l = true → ∃ pc, pcAt l t = some pc ∧ pc.lock = true

/-- A step keeps the invariant if its own task holds the lock while it is posting. -/
theorem Posting.task {l : List LogItem} {t : ℕ} {a : LogEntry} (h : Posting l)
    (own : posting t (.task t a :: l) = true →
      ∃ pc, (protocol {}).advance a (pcAt l t) = some pc ∧ pc.lock = true) :
    Posting (.task t a :: l) := by
  intro u hu
  rw [pcAt_task]
  rcases eq_or_ne u t with rfl | hne
  · rw [Function.update_self]
    exact own hu
  · rw [Function.update_of_ne hne]
    rw [posting_of_ne (Ne.symm hne)] at hu
    exact h u hu

/-- An entry after which the task has sent a transaction only if it had before, and which
leaves it the lock. -/
theorem Posting.same {l : List LogItem} {t : ℕ} {pc pc' : Pc} {a : LogEntry} (h : Posting l)
    (at_ : pcAt l t = some pc) (ha : (protocol {}).advance a (some pc) = some pc')
    (hs : sendsPost a = false) (hl : freesWallet a = false → pc'.lock = pc.lock) :
    Posting (.task t a :: l) := by
  refine h.task fun hp => ⟨pc', by rw [at_, ha], ?_⟩
  obtain ⟨hf, hp⟩ := posting_self hp
  obtain ⟨q, hq, hlock⟩ := h t (hp.resolve_left fun h => Bool.false_ne_true (hs.symm.trans h))
  obtain rfl := Option.some.inj (at_.symm.trans hq)
  rw [hl hf, hlock]

/-- **Who is posting holds the lock**, in every run. -/
theorem maintained_posting :
    Maintained (gateway cfg) (protocol cfg) Installed C fun _ l => Posting l where
  init _ _ h := by cases h
  start h _ _ _ := h.task fun hp => (by cases (posting_self hp).1)
  wake h at_ _ _ _ := by
    rw [point_protocol] at at_
    exact h.same at_ rfl rfl fun _ => rfl
  emit {s t pc e l} h at_ ok _ := by
    rw [point_protocol] at at_
    by_cases hl : e = .lock
    · subst hl
      exact h.task fun _ => ⟨_, by rw [at_]; rfl, rfl⟩
    refine h.same at_ rfl rfl fun hf => pc.lock_emit hl ?_
    rintro rfl
    cases hf
  toss {s t pc q b l} h at_ _ := by
    rw [point_protocol] at at_
    exact h.same at_ rfl rfl fun _ => (pc.same_toss q b).lock
  park {s t pc i l} h at_ ok _ := by
    rw [point_protocol] at at_
    cases hi : i.walletPost with
    | true =>
      have locked : pc.lock = true := by
        have ok : AwaitOk cfg pc s i := ok.1
        cases i with
        | openPost | closePost | withdrawPost => exact ok.1
        | _ => cases hi
      refine h.task fun _ => ⟨pc.move (.parked i), by rw [at_]; rfl, locked⟩
    | false => exact h.same at_ rfl hi fun _ => rfl
  stop h _ _ _ := h.task fun hp => (by cases (posting_self hp).1)
  drift h _ := h
  crash _ _ _ h := by cases h

/-- **Wallet transactions are sent one at a time**, each after its record: from the POST of one
until its sender has stored the outcome and released the wallet, no other task sends one. -/
theorem sendsAlone : Ensures cfg Always SendsAlone := by
  refine Ensures.park fun {s P l t pc i} tr at_ ok _ hw => ?_
  have locks : Locks s (pcAt l) := tracked_locks.run tr
  have locked : pc.lock = true := by
    cases i with
    | openPost | closePost | withdrawPost => exact ok.1
    | _ => cases hw
  have mine : s.memory.lock = some t := (locks t).2 ⟨pc, at_, locked⟩
  refine ⟨mine, ?_, fun u hu => ?_⟩
  · cases i with
    | openPost row duration limit => exact ⟨ok.2.1, ok.2.2.1, ok.2.2.2.1, ok.2.2.2.2.2.2.2⟩
    | closePost row =>
      obtain ⟨-, hrow, hs, ⟨n, hn⟩, hrows, hops, -⟩ := ok
      exact ⟨hrow, hs, by rw [hn]; rfl, hrows, hops⟩
    | withdrawPost op => exact ⟨ok.2.1, ok.2.2.1, ok.2.2.2.1, ok.2.2.2.2.1⟩
    | _ => cases hw
  · by_contra hp
    obtain ⟨q, hq, hl⟩ := maintained_posting.traj tr u (by simpa using hp)
    exact hu (Option.some.inj (((locks u).2 ⟨q, hq, hl⟩).symm.trans mine))

/-! ### Leases -/

/-- A record is reserved while nobody holds it, and given back by its one holder; a request is
dispatched to a record that it alone holds. -/
def LendsOnce : ItemRule := fun s l x =>
  OnEvent (fun s l t e =>
    (∀ id, e = .reserve id → id ∉ s.memory.active ∧ ∀ o, ¬Owns s (pcAt l) l id o) ∧
    ∀ id, e = .unreserve id → ∀ o, Owns s (pcAt l) l id o ↔ o = .task t) s l x ∧
  OnPark (fun s l t i => ∀ row m call, i = .dispatch row m call →
    row.id ∈ s.memory.active ∧ ∀ o, Owns s (pcAt l) l row.id o ↔ o = .task t) s l x

/-- The holder of a lease is its only one. -/
theorem Leased.only {s : World} {l : List LogItem} {t : ℕ} {pc : Pc} {id : RowId}
    (h : Leased s (pcAt l) l) (at_ : pcAt l t = some pc) (hl : pc.lease = some id) (o : Holder) :
    Owns s (pcAt l) l id o ↔ o = .task t := by
  have mine : Owns s (pcAt l) l id (.task t) := ⟨pc, at_, hl⟩
  constructor
  · exact fun ho => h.one id o _ ho mine
  · rintro rfl
    exact mine

/-- **A session serves one request at a time.** -/
theorem lendsOnce : Ensures cfg Always LendsOnce := by
  refine Ensures.and (Ensures.emit ?_) (Ensures.park ?_)
  · intro s P l t pc e tr at_ ok _
    refine ⟨fun id he => ?_, fun id he => ?_⟩
    · subst he
      have free : id ∉ s.memory.active := ok.1
      exact ⟨free, fun o ho => free ((Run.leased tr).active id o ho)⟩
    · subst he
      exact (Run.leased tr).only at_ ok
  · intro s P l t pc i tr at_ ok _ row m call hi
    subst hi
    have lease : pc.lease = some row.id := Dispatched.lease ok
    exact ⟨(Run.leased tr).active _ (.task t) ⟨pc, at_, lease⟩, (Run.leased tr).only at_ lease⟩

end MorpheusGateway
