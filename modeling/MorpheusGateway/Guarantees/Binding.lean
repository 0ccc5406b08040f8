/-
# What `bind` stores

`bind` checks the record and the uniqueness of the session ID, awaits the chain read,
and stores its copy.  `Bound` is what should hold of the record when it does.

Nothing in the source keeps the record and the ID as they were checked during that
await, so `Bound` needs `LeavesBinding`: whoever stores a record meanwhile leaves the
awaited record uncertain and does not give its session ID to another one, and no record
out of use has it already.  `not_bindExact` is a run in which a second `bind` of
the same record, checked before the first one stored, overwrites the open session.
-/

import MorpheusGateway.Protocol.Runs

namespace MorpheusGateway

open Contract Sessions

variable {cfg : Config} {C : ItemRule}

/-! ### One call -/

/-- The control point of one call `bind id chainId` is the record it has stored.  It may
store one, for this ID and this session, and nothing else but the identity of the node. -/
def binder (id : RowId) (chainId : String) :
    Contract World Event StoreCall Site Answer Program (Option Row) where
  enter _ := none
  next stored a := match a with
    | .emit (.put _ row) => some row
    | _ => stored
  site _ := none
  ok _ stored _ a := match a with
    | .emit (.put w row) =>
        w = .bind ∧ stored = none ∧ row.id = id ∧ row.chainId = some (lower chainId)
    | .emit (.installation _) | .emit (.identity _) | .emit (.ready _) => True
    | .emit (.storeError _) => True
    | .emit _ => False
    | _ => True
  grows _ _ := True

/-- What a call has when it returns `row`. -/
def BinderDone (row : Row) (stored : Option Row) (s : World) : Prop :=
  stored = some row ∧ s.row? row.id = some row

section Call

variable {id : RowId} {chainId : String} {t : ℕ} {s : World}

/-- The identity check stores nothing. -/
theorem binder_verifyIdentity {Q : Identity → Option Row → World → Prop}
    (hQ : ∀ i s', Q i none s') :
    (binder id chainId).wp (gateway cfg) t (verifyIdentity cfg .bind) Q
      (fun _ stored _ => stored = none) none s := by
  simp only [verifyIdentity, fetch, store, wp_bind', wp_suspend, wp_ofExcept, wp_fails,
    wp_ite, wp_raise, wp_get, wp_pure, wp_perform, raise_seq]
  simp [binder, hQ]

/-- The record is stored with its session ID. -/
theorem binder_putRow {row : Row} {Q : Unit → Option Row → World → Prop} (hid : row.id = id)
    (hc : row.chainId = some (lower chainId)) (hQ : Q () (some row) (s.apply t (.put .bind row))) :
    (binder id chainId).wp (gateway cfg) t (putRow .bind row) Q
      (fun _ stored _ => stored = none) none s := by
  simp only [putRow, store, wp_bind', wp_fails, wp_ite, wp_raise, wp_perform]
  intro b
  simp only [binder]
  exact ⟨fun _ => trivial, fun _ => ⟨⟨trivial, trivial, hid, hc⟩, hQ⟩⟩

/-- The diagnostic behind it leaves it stored. -/
theorem binder_event {row : Row} {Q : Unit → Option Row → World → Prop}
    (hQ : ∀ s', s'.store = s.store → Q () (some row) s') :
    (binder id chainId).wp (gateway cfg) t event Q (fun _ stored _ => stored = none)
      (some row) s := by
  simp only [event, wp_bind', wp_fails, wp_ite, wp_pure, wp_perform]
  exact fun b => ⟨fun _ => ⟨trivial, hQ _ rfl⟩, fun _ => hQ _ rfl⟩

/-- A call that returns has stored the record it returns, one that raises nothing. -/
theorem binder_bind :
    (binder id chainId).wp (gateway cfg) t (bind cfg id chainId) BinderDone
      (fun _ stored _ => stored = none) none s := by
  have read : ∀ {α : Type} {f : World → α} {Q : α → Option Row → World → Prop} {s},
      Q (f s) none s → (binder id chainId).wp (gateway cfg) t (fetch f) Q
        (fun _ stored _ => stored = none) none s := by
    intro α f Q s hQ
    simp only [fetch, wp_bind', wp_fails, wp_ite, wp_raise, wp_get, wp_pure]
    exact fun b => ⟨fun _ => rfl, fun _ => hQ⟩
  have truthInt : ∀ {truth key} {Q : ℤ → Option Row → World → Prop} {s}, (∀ n, Q n none s) →
      (binder id chainId).wp (gateway cfg) t (truthInt truth key) Q
        (fun _ stored _ => stored = none) none s := by
    intro truth key Q s hQ
    simp only [Sessions.truthInt, wp_bind', wp_ofExcept]
    exact ⟨fun v _ => ⟨fun n _ => hQ n, fun _ _ => trivial⟩, fun _ _ => trivial⟩
  simp only [Sessions.bind, wp_ite, wp_raise, wp_bind', raise_seq]
  refine ⟨fun _ => trivial, fun _ => (wp_discard _).2 (binder_verifyIdentity fun i s1 => ?_)⟩
  refine (wp_bind' _).2 (read ?_)
  split
  · rfl
  rename_i row hrow
  have hid : row.id = id := Table.key_of_get hrow
  simp only [wp_ite, wp_raise, wp_bind']
  refine ⟨fun _ => trivial, fun _ => read ((wp_ite _ _ _).2 ⟨fun _ => rfl, fun _ => ?_⟩)⟩
  simp only [bindVerified, wp_bind', wp_suspend, wp_ofExcept]
  refine ⟨trivial, fun s2 a _ _ => ⟨fun truth _ => ?_, fun _ _ => rfl⟩⟩
  simp only [_validateTruth, memory, wp_bind', wp_get, wp_pure, wp_ofExcept]
  refine ⟨fun _ _ => truthInt fun openedAt => ?_, fun _ _ => rfl⟩
  simp only [wp_ite, wp_raise, wp_bind', raise_seq]
  refine ⟨fun _ => trivial, fun _ => truthInt fun endsAt => ?_⟩
  simp only [wp_bind', wp_ofExcept]
  refine ⟨fun stake _ => truthInt fun closedAt => ?_, fun _ _ => trivial⟩
  simp only [wp_ite, wp_bind']
  refine ⟨fun _ => ?_, fun _ => ?_⟩
  · simp only [recordClosed, wp_bind']
    refine truthInt fun closedAt => ?_
    simp only [wp_bind', wp_ofExcept]
    refine ⟨fun stake _ => binder_putRow hid rfl ?_, fun _ _ => trivial⟩
    refine (wp_bind' _).2 (binder_event fun s3 h3 => (wp_bind' _).2 ?_)
    refine binder_event fun s4 h4 => ⟨rfl, ?_⟩
    unfold World.row?
    rw [h4, h3]
    exact Table.get_put_self _ _
  · refine binder_putRow hid rfl ((wp_bind' _).2 (binder_event fun s3 h3 => ⟨rfl, ?_⟩))
    unfold World.row?
    rw [h3]
    exact Table.get_put_self _ _

end Call

/-! ### All runs -/

/-- The record `r`, with its session ID, may be bound: it is stored as uncertain and no
other record has the ID. -/
structure Bindable (st : Store) (r : Row) : Prop where
  uncertain : ∃ old, st.sessions.get r.id = some old ∧ old.state = .openUnknown
  unique : ∀ q ∈ st.sessions.rows, q.id ≠ r.id → q.chainId ≠ r.chainId

/-- The chain read that the task `t` was just answered shows the session of `row`, in the
wallet of the installation, opened in time. -/
structure ReadMatches (cfg : Config) (l : List LogItem) (t : ℕ) (s : World) (row : Row) : Prop where
  wallet : ∃ identity installation, s.memory.identity = some identity ∧
    s.store.installation = some installation ∧ installation.wallet = identity.wallet ∧
    ∃ pc r a truth openedAt, pcAt l t = some pc ∧ pc.place = .woken (.bindRead r) a ∧
      r.id = row.id ∧ r.chainId = row.chainId ∧ readSession "" a = .ok truth ∧
      sameSession identity row truth = true ∧
      (item truth "OpenedAt").bind int = .ok openedAt ∧ inWindow cfg row openedAt = true

/-- `bind` stores a record only if it may be bound and the chain read matches. -/
def BindExact (cfg : Config) : ItemRule :=
  OnPut fun s l t w row => w = .bind → Bindable s.store row ∧ ReadMatches cfg l t s row

/-- Whoever stores a record while `bind` awaits its chain read leaves the awaited record
uncertain and gives its session ID to no other record; and when `bind` starts to wait, no
record out of use has that ID. -/
def LeavesBinding : ItemRule := fun s l x =>
  OnPut (fun _ l t w row => ∀ u pc r, pcAt l u = some pc → pc.place.binding = some r →
    (u = t → w ≠ .bind) → (row.id = r.id → row.state = .openUnknown) ∧
      (row.id ≠ r.id → row.chainId ≠ r.chainId)) s l x ∧
  OnPark (fun s _ _ i => ∀ r, i = .bindRead r → ∀ q ∈ s.store.sessions.rows,
    q.state.terminal = true → q.id ≠ r.id → q.chainId ≠ r.chainId) s l x

/-- A record may be bound on as long as others leave it alone. -/
theorem Bindable.apply {s : World} {t : ℕ} {e : Event} {r : Row} (h : Bindable s.store r)
    (he : ∀ w row, e.stored = some (w, row) → (row.id = r.id → row.state = .openUnknown) ∧
      (row.id ≠ r.id → row.chainId ≠ r.chainId)) : Bindable (s.apply t e).store r where
  uncertain := by
    obtain ⟨old, hold, hst⟩ := h.uncertain
    rcases row?_apply (t := t) (e := e) hold (by rw [hst]; rfl) with
      ⟨hs, -⟩ | ⟨w, row, hw, hid, hs⟩
    · exact ⟨old, hs, hst⟩
    · exact ⟨row, hs, (he w row hw).1 hid⟩
  unique q hq hne := by
    rcases mem_rows_apply hq with ⟨hq, -⟩ | ⟨w, hw⟩
    · exact h.unique q hq hne
    · exact (he w q hw).2 hne

/-- A record whose chain read is awaited may be bound. -/
theorem undisturbed_bindable : Undisturbed (gateway cfg) (protocol cfg) LeavesBinding
    fun s _ pc => ∀ r, pc.place.binding = some r → Bindable s.store r := by
  refine undisturbed_place (J := fun st p => ∀ r, p.binding = some r → Bindable st r)
    (fun _ _ h => nomatch h) (fun {st i a} h r hr => h r ?_)
    (fun {s t pc e l} h at_ _ c r hr => ?_) (fun {s t pc e l u q} ne h atu _ _ c r hr => ?_)
    fun {s t pc i l} _ _ ok c r hr => ?_
  · cases i with
    | bindRead row => exact hr
    | _ => cases hr
  · rcases pc.place_emit e with ⟨hp, hw⟩ | ⟨_, _, _, -, -, hp⟩
    · rw [hp] at hr
      refine (h r hr).apply fun w row he => c.1.stored he t pc r at_ hr fun _ hb => ?_
      have hspends := hw w row he
      rw [hb] at hspends
      cases hspends
    · rw [hp] at hr
      cases hr
  · exact (h r hr).apply fun w row he => c.1.stored he u q r atu hr fun he => absurd he ne
  · cases i with
    | bindRead row =>
      obtain rfl := Option.some.inj hr
      obtain ⟨-, old, hold, -, -, hst, -, hfree⟩ := ok
      refine ⟨⟨old, hold, hst⟩, fun q hq hne => ?_⟩
      cases hl : q.state.terminal with
      | true => exact c.2 _ rfl q hq hl hne
      | false => exact hfree q (List.mem_filter.2 ⟨hq, by simp [hl]⟩) hne
    | _ => cases hr

/-- **Binding is exact and atomic.**  Whatever the gateway does meanwhile, as long as it
leaves the awaited records and their session IDs alone, `bind` stores only the session
that the chain shows, of a record that is still uncertain; and a call that raises has
stored nothing. -/
theorem bind_exact (cfg : Config) : Ensures cfg LeavesBinding (BindExact cfg) ∧
    ∀ id chainId t s, (binder id chainId).wp (gateway cfg) t (Sessions.bind cfg id chainId)
      BinderDone (fun _ stored _ => stored = none) none s := by
  refine ⟨Ensures.put fun {s P l t pc w row} tr at_ ok c hw => ?_, fun _ _ _ _ => binder_bind⟩
  subst hw
  obtain ⟨-, r, a, truth, openedAt, hp, hk, hat, ht, hv, ho, hin⟩ := ok
  have hbind : Bindable s.store r := by
    refine undisturbed_bindable.traj tr t pc ?_ r (by rw [hp]; rfl)
    rw [Run.pcs tr, at_]
  obtain ⟨identity, hi, hsame⟩ := sameSession_of_validTruth hv
  obtain ⟨installation, hinst, hwallet⟩ := Run.ownWallet tr identity hi
  have hid : row.id = r.id := hk.1.1
  refine ⟨⟨by rw [hid]; exact hbind.uncertain, by rw [hid, hk.2.1]; exact hbind.unique⟩,
    ⟨identity, installation, hi, hinst, hwallet, pc, r, a, truth, openedAt, at_, hp, hid.symm,
      hk.2.1.symm, ht, by rwa [sameSession_congr hk.1 hk.2.1], ho, ?_⟩⟩
  simpa only [inWindow, hat] using hin

/-- Whoever is careful leaves the records alone that are bound. -/
theorem leavesBinding_of_careful {s : World} {l : List LogItem} {x : LogItem}
    (h : careful s l x = true) : LeavesBinding s l x := by
  cases x with
  | task t a =>
    cases a with
    | emit e =>
      refine ⟨?_, trivial⟩
      cases e with
      | put w row =>
        intro u pc r at_ hr hw
        have hp := careful_put h at_
        simp only [apart, hr, Option.isNone_some, Bool.false_or, Bool.and_eq_true,
          decide_eq_true_eq] at hp
        obtain ⟨-, rfl, hbind⟩ := hp
        cases w with
        | bind => exact absurd rfl (hw rfl)
        | _ => cases hbind
      | _ => exact trivial
    | park i =>
      refine ⟨trivial, fun r hi q hq terminal => ?_⟩
      subst hi
      exact nomatch terminal.symm.trans (careful_bindRead h q hq)
    | _ => exact ⟨trivial, trivial⟩
  | _ => exact ⟨trivial, trivial⟩

/-- A record is bound on the day on which nobody interferes. -/
theorem bind_exact_day : Exhibits {} LeavesBinding (BindExact {}) Sample.binds :=
  (bind_exact {}).1.exhibit (Sample.day_exhibits (fun _ _ _ => leavesBinding_of_careful) (by simp))

/-- The record that `bind` overwrites is uncertain. -/
def overUncertain (s : World) (_ : List LogItem) : LogItem → Bool
  | .task _ (.emit (.put .bind row)) => (s.row? row.id).any fun old => old.state = .openUnknown
  | _ => true

/-- Two calls for one record both check it before either stores. -/
theorem not_bindExact : ¬Ensures {} Always (BindExact {}) := by
  refine not_ensures overUncertain (fun {s l x} h => ?_)
    (Sample.uncertain ++ [.start 5 (.bind (.uuid 2) Sample.sid) [],
      .start 6 (.bind (.uuid 2) Sample.sid) [], .wake 5 Sample.identity [],
      .wake 6 Sample.identity [], .wake 5 (Sample.session 0) []])
    (.wake 6 (Sample.session 0) []) (by decide +kernel)
  unfold overUncertain
  split
  · obtain ⟨⟨old, hold, hst⟩, -⟩ := (h rfl).1
    rw [World.row?, hold]
    simpa using hst
  · rfl

end MorpheusGateway
