/-
# No withdrawal is settled unseen

A withdrawal that may have been sent is unresolved, and no other is made before it is settled.
`Settles` says which answer of the node or of the helper settles it in which state: that of its
POST, the journal, or the receipts of its transactions.  Every withdrawal that is stored in
another state than unresolved has such an answer in the log (`showsSettled`), so that stake is
neither withdrawn twice nor given up because of an answer that did not tell.
-/

import MorpheusGateway.Guarantees.Restarting
import MorpheusGateway.Guarantees.Revoking
import MorpheusGateway.Guarantees.Showing
import MorpheusGateway.Protocol.Numbering

namespace MorpheusGateway

open Contract

variable {cfg : Config} {C : ItemRule}

/-- Some answer settled the withdrawal in this state. -/
def SettledAs (l : List LogItem) (id : ℕ) (state : OpState) : Prop :=
  ∃ i a, Woken l i a ∧ Settles id i a state

/-- Every stored withdrawal is unresolved, or some answer settled it in the state that it is
stored in. -/
def ShowsSettled : ItemRule := fun s l _ => ∀ op ∈ s.store.operations.rows, op.kind = .withdraw →
  op.unresolved = true ∨ SettledAs l op.id op.state

/-- What the log settles stays settled. -/
theorem SettledAs.older {l : List LogItem} {id : ℕ} {state : OpState} (h : SettledAs l id state)
    (x : LogItem) : SettledAs (x :: l) id state := by
  obtain ⟨i, a, hw, hs⟩ := h
  exact ⟨i, a, hw.older x, hs⟩

/-! ### What is stored -/

/-- The answer that a task goes on from was given to it. -/
theorem woken_of_point {t : ℕ} {l : List LogItem} {a : Agent} {i : Site} {x : Answer}
    (h : powers.point t l = some a) (hw : a.woken = some (i, x)) : Woken l i x := by
  refine ⟨t, ?_⟩
  induction l generalizing a with
  | nil => cases h
  | cons y l ih =>
    cases y with
    | drift d => exact List.mem_cons_of_mem _ (ih h hw)
    | crash => cases h
    | task u y =>
      unfold point at h
      split_ifs at h with hu
      · subst hu
        cases y with
        | stop => cases h
        | start p =>
          obtain rfl := Option.some.inj h
          cases hw
        | park j =>
          obtain ⟨b, -, rfl⟩ := Option.map_eq_some_iff.1 h
          cases hw
        | wake j y =>
          obtain ⟨b, -, rfl⟩ := Option.map_eq_some_iff.1 h
          obtain ⟨rfl, rfl⟩ := Prod.mk.inj (Option.some.inj hw)
          exact List.mem_cons_self
        | toss q f =>
          obtain ⟨b, hb, rfl⟩ := Option.map_eq_some_iff.1 h
          exact List.mem_cons_of_mem _ (ih hb hw)
        | emit e =>
          obtain ⟨b, hb, rfl⟩ := Option.map_eq_some_iff.1 h
          refine List.mem_cons_of_mem _ (ih hb ?_)
          by_cases he : ∃ n, e = .walletScan n
          · obtain ⟨n, rfl⟩ := he
            cases hw
          · exact (b.next_woken fun n hn => he ⟨n, hn⟩).symm.trans hw
      · exact List.mem_cons_of_mem _ (ih h hw)

/-- What the treasury stores of a withdrawal is unresolved, or was just settled by an answer. -/
def StoresSettled : ItemRule := OnEvent fun _ l _ e => ∀ w op, e = .putOperation w op →
  w = .withdraw ∨ w = .settle → op.unresolved = true ∨ SettledAs l op.id op.state

/-- A withdrawal is stored as settled by an answer only, in every run. -/
theorem storesSettled : Ensures cfg C StoresSettled := by
  refine Ensures.poweredEvent fun {s P l t a e} _ at_ ok w op he hw => ?_
  have told : Attested a op := by
    subst he
    rcases hw with rfl | rfl
    · exact ok.2
    · exact ok.2
  exact told.imp_right fun ⟨i, x, woken, settles⟩ => ⟨i, x, woken_of_point at_ woken, settles⟩

/-! ### Whole runs -/

/-- What holds of the stored withdrawals, and of the restarts, which are none. -/
structure Withdrawn (s : World) (l : List LogItem) : Prop where
  rows : ∀ op ∈ s.store.operations.rows, op.kind = .withdraw →
    op.unresolved = true ∨ SettledAs l op.id op.state
  spawned : ∀ handle op immediate rating,
    (handle, Work.restart op immediate rating) ∈ s.memory.spawned → op.kind ≠ .withdraw
  restarting : ∀ t pc, pcAt l t = some pc → ∀ kind immediate,
    pc.restarting = some (kind, immediate) → kind ≠ .withdraw

section Steps

variable {s s' : World} {l : List LogItem} {t : ℕ} {x : LogEntry}

/-- A step keeps the invariant if what it stores is unresolved or settled. -/
theorem Withdrawn.task (h : Withdrawn s l)
    (hr : ∀ op ∈ s'.store.operations.rows, op.kind = .withdraw →
      op ∈ s.store.operations.rows ∨ op.unresolved = true ∨ SettledAs l op.id op.state)
    (hs : ∀ handle op immediate rating,
      (handle, Work.restart op immediate rating) ∈ s'.memory.spawned →
        (handle, Work.restart op immediate rating) ∈ s.memory.spawned ∨ op.kind ≠ .withdraw)
    (own : ∀ pc, (protocol {}).advance x (pcAt l t) = some pc → ∀ kind immediate,
      pc.restarting = some (kind, immediate) → kind ≠ .withdraw) :
    Withdrawn s' (.task t x :: l) where
  rows op hop hk := by
    rcases hr op hop hk with hop | hu | hs
    · exact (h.rows op hop hk).imp_right fun hs => hs.older _
    · exact .inl hu
    · exact .inr (hs.older _)
  spawned handle op immediate rating hm :=
    (hs handle op immediate rating hm).elim (h.spawned handle op immediate rating) id
  restarting := forall_pcAt (J := fun _ pc => ∀ kind immediate,
    pc.restarting = some (kind, immediate) → kind ≠ .withdraw) own fun u q _ hq => h.restarting u q hq

/-- The stored operations after an event. -/
theorem mem_operations_apply {op : Operation} {e : Event}
    (h : op ∈ (s.apply t e).store.operations.rows) :
    op ∈ s.store.operations.rows ∨ ∃ w, e = .putOperation w op := by
  cases e with
  | putOperation w op' =>
    rcases Table.mem_put.1 h with rfl | ⟨h, -⟩
    · exact .inr ⟨w, rfl⟩
    · exact .inl h
  | prune => exact .inl (List.mem_filter.1 h).1
  | _ => exact .inl h

end Steps

/-- **Every settled withdrawal was settled by an answer**, in every run. -/
theorem maintained_withdrawn (hC : ∀ {s l x}, C s l x → StoresSettled s l x) :
    Maintained (gateway cfg) (protocol cfg) Installed C Withdrawn where
  init {s} hs := by
    obtain ⟨now, monotonic, rfl⟩ := hs
    exact ⟨fun _ hop => (by cases hop), fun _ _ _ _ hm => (by cases hm), fun _ _ hpc => (by cases hpc)⟩
  start {s t p s' l} h _ may _ := by
    have may : s.begin t p = some s' := may
    refine h.task (fun op hop _ => .inl ?_) (fun handle op immediate rating hm => .inl ?_)
      fun pc hpc kind immediate hr => ?_
    · rwa [store_begin may] at hop
    · rcases spawned_begin may with ⟨_, _, -, -, hs⟩ | ⟨-, hs⟩
      · rw [hs] at hm
        exact List.mem_of_mem_erase hm
      · rwa [hs] at hm
    · obtain rfl := Option.some.inj hpc
      cases p with
      | task handle w =>
        cases w with
        | restart op immediate' rating =>
          obtain ⟨rfl, rfl⟩ := Prod.mk.inj (Option.some.inj hr)
          rcases spawned_begin may with ⟨_, _, hp, hm, -⟩ | ⟨hne, -⟩
          · obtain ⟨rfl, rfl⟩ := Program.task.inj hp
            exact h.spawned _ _ _ _ hm
          · exact absurd rfl (hne _ _)
        | _ => cases hr
      | _ => cases hr
  wake {s t pc i a l} h at_ _ _ _ := by
    rw [point_protocol] at at_
    refine h.task (fun _ hop _ => .inl hop) (fun _ _ _ _ hm => .inl hm) fun pc' hpc' => ?_
    rw [at_] at hpc'
    obtain rfl := Option.some.inj hpc'
    exact h.restarting t pc at_
  emit {s t pc e l} h at_ ok c := by
    rw [point_protocol] at at_
    have ok : EventOk cfg pc s e := ok
    refine h.task (fun op hop hk => ?_) (fun handle op immediate rating hm => ?_)
      fun pc' hpc' kind immediate hr => ?_
    · refine (mem_operations_apply hop).imp_right ?_
      rintro ⟨w, rfl⟩
      have ok : OperationWrite pc s op w := ok
      cases w with
      | withdraw => exact hC c _ op rfl (.inl rfl)
      | settle => exact hC c _ op rfl (.inr rfl)
      | recover => exact .inl (by simp [Operation.unresolved, ok.1, ok.2])
      | restart =>
        rcases ok with hne | ⟨immediate, hr⟩
        · exact absurd hk hne
        · exact absurd hk (h.restarting t pc at_ _ _ hr)
    · rcases (tasks_apply s t e).1 with ⟨same, -⟩ | ⟨h', w, rfl⟩
      · exact .inl (by rwa [← same])
      · rcases List.mem_cons.1 hm with he | hm
        · obtain ⟨rfl, rfl⟩ := Prod.mk.inj he
          exact .inr ok.2.1
        · exact .inl hm
    · rw [at_] at hpc'
      obtain rfl := Option.some.inj hpc'
      rcases restarting_emit pc e with he | ⟨-, he⟩
      · exact h.restarting t pc at_ kind immediate (he.symm.trans hr)
      · cases he.symm.trans hr
  toss {s t pc q b l} h at_ _ := by
    rw [point_protocol] at at_
    refine h.task (fun _ hop _ => .inl hop) (fun _ _ _ _ hm => .inl hm) fun pc' hpc' => ?_
    rw [at_] at hpc'
    obtain rfl := Option.some.inj hpc'
    show ∀ kind immediate, (pc.toss q b).restarting = some (kind, immediate) → kind ≠ .withdraw
    rw [(pc.same_toss q b).restarting]
    exact h.restarting t pc at_
  park {s t pc i l} h at_ _ _ := by
    rw [point_protocol] at at_
    refine h.task (fun _ hop _ => .inl hop) (fun _ _ _ _ hm => .inl hm) fun pc' hpc' => ?_
    rw [at_] at hpc'
    obtain rfl := Option.some.inj hpc'
    exact h.restarting t pc at_
  stop h _ _ _ := h.task (fun _ hop _ => .inl hop) (fun _ _ _ _ hm => .inl hm)
    fun _ hpc' => by cases hpc'
  drift h _ := ⟨fun op hop hk => (h.rows op hop hk).imp_right fun hs => hs.older _, h.spawned,
    h.restarting⟩
  crash h _ := ⟨fun op hop hk => (h.rows op hop hk).imp_right fun hs => hs.older _,
    fun _ _ _ _ hm => (by cases hm), fun _ _ hpc => (by cases hpc)⟩

/-- **No withdrawal is settled unseen.**  In every run, a withdrawal that is stored as succeeded
or failed was settled so by an answer: its POST returned a transaction or was refused, or the
journal or the receipts of its transactions tell what came of it. -/
theorem showsSettled (cfg : Config) : Ensures cfg Always ShowsSettled := by
  refine Ensures.knowing storesSettled (Ensures.always fun {s P run l} tr => ?_)
  exact ((maintained_withdrawn fun c => c.2).traj tr).rows

end MorpheusGateway
