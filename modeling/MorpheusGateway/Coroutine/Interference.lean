/-
# Properties of a task that survive the others

A property `J s t pc` of the state and of one task's control point holds in every run
if the task's own entries keep it and no entry of another task spoils it.
`Undisturbed` lists these conditions, one for each kind of entry, and
`Undisturbed.traj` is the induction.  An own entry may be judged with the contract
alone; an entry of another task is judged with that task's contract, its own `J`, and
the condition `C` of the run.

`Maintained` is the same for a property of the state and the log alone.
`Traj.knowing` lets a run be taken up again with what is already proved of it as
part of its condition, and `Traj.alone` with the fact that only one task runs.
-/

import MorpheusGateway.Coroutine.Contract

namespace MorpheusGateway
namespace Contract

variable {σ Ev κ ι ρ π δ Pc : Type}

/-- The entries of a task keep `J` of that task, and of every other one. -/
structure Undisturbed (S : System σ Ev κ ι ρ π δ) (K : Contract σ Ev κ ι ρ π Pc)
    (C : σ → List (Item Ev κ ι ρ π δ) → Item Ev κ ι ρ π δ → Prop)
    (J : σ → ℕ → Pc → Prop) : Prop where
  enter {s t p s' l} (may : S.begin s t p = some s') (c : C s l (.task t (.start p))) :
    J s' t (K.enter p)
  begin {s t p s' u q l} (may : S.begin s t p = some s') (h : J s u q)
    (c : C s l (.task t (.start p))) : J s' u q
  wake {s t pc i r l} (h : J s t pc) (site : K.site pc = some i) (may : S.legal s t i r = true)
    (c : C s l (.task t (.wake i r))) : J s t (K.next pc (.wake i r))
  emit {s t pc e l} (h : J s t pc) (at_ : K.point t l = some pc) (ok : K.ok t pc s (.emit e))
    (c : C s l (.task t (.emit e))) : J (S.apply t e s) t (K.next pc (.emit e))
  other {s t pc e l u q} (ne : u ≠ t) (hu : J s u q) (atu : K.point u l = some q) (h : J s t pc)
    (at_ : K.point t l = some pc) (ok : K.ok t pc s (.emit e)) (c : C s l (.task t (.emit e))) :
    J (S.apply t e s) u q
  toss {s t pc q b l} (h : J s t pc) (c : C s l (.task t (.toss q b))) :
    J s t (K.next pc (.toss q b))
  park {s t pc i l} (h : J s t pc) (at_ : K.point t l = some pc) (ok : K.ok t pc s (.park i))
    (c : C s l (.task t (.park i))) : J s t (K.next pc (.park i))
  drift {s u q d l} (h : J s u q) (c : C s l (.drift d)) : J (S.drift d s) u q

/-- The entries of every task keep the property `I` of the state and the log. -/
structure Maintained (S : System σ Ev κ ι ρ π δ) (K : Contract σ Ev κ ι ρ π Pc)
    (from_ : σ → Prop) (C : σ → List (Item Ev κ ι ρ π δ) → Item Ev κ ι ρ π δ → Prop)
    (I : σ → List (Item Ev κ ι ρ π δ) → Prop) : Prop where
  init {s} (h : from_ s) : I s []
  start {s t p s' l} (h : I s l) (fresh : K.point t l = none) (may : S.begin s t p = some s')
    (c : C s l (.task t (.start p))) : I s' (.task t (.start p) :: l)
  wake {s t pc i r l} (h : I s l) (at_ : K.point t l = some pc) (site : K.site pc = some i)
    (may : S.legal s t i r = true) (c : C s l (.task t (.wake i r))) :
    I s (.task t (.wake i r) :: l)
  emit {s t pc e l} (h : I s l) (at_ : K.point t l = some pc) (ok : K.ok t pc s (.emit e))
    (c : C s l (.task t (.emit e))) : I (S.apply t e s) (.task t (.emit e) :: l)
  toss {s t pc q b l} (h : I s l) (at_ : K.point t l = some pc)
    (c : C s l (.task t (.toss q b))) : I s (.task t (.toss q b) :: l)
  park {s t pc i l} (h : I s l) (at_ : K.point t l = some pc) (ok : K.ok t pc s (.park i))
    (c : C s l (.task t (.park i))) : I s (.task t (.park i) :: l)
  stop {s t pc l} (h : I s l) (at_ : K.point t l = some pc) (ok : K.ok t pc s .stop)
    (c : C s l (.task t .stop)) : I s (.task t .stop :: l)
  drift {s d l} (h : I s l) (c : C s l (.drift d)) : I (S.drift d s) (.drift d :: l)
  crash {s l} (h : I s l) (c : C s l .crash) : I (S.reset s) (.crash :: l)

variable {S : System σ Ev κ ι ρ π δ} {K : Contract σ Ev κ ι ρ π Pc} {init : σ → Prop}
  {C : σ → List (Item Ev κ ι ρ π δ) → Item Ev κ ι ρ π δ → Prop}
  {s : σ} {P : ℕ → Option Pc} {run : Option ℕ} {l : List (Item Ev κ ι ρ π δ)}

/-- A property of all control points survives when one of them moves. -/
theorem forall_update {J : ℕ → Pc → Prop} {t : ℕ} {v : Pc} (hv : J t v)
    (h : ∀ u q, u ≠ t → P u = some q → J u q) :
    ∀ u q, Function.update P t (some v) u = some q → J u q := by
  intro u q hq
  rcases eq_or_ne u t with rfl | hu
  · rw [Function.update_self] at hq
    obtain rfl := Option.some.inj hq
    exact hv
  · rw [Function.update_of_ne hu] at hq
    exact h u q hu hq

/-- What holds of the control points of a log holds after one of them moved, if it holds of
that. -/
theorem forall_point {J : ℕ → Pc → Prop} {t : ℕ} {a : Entry Ev κ ι ρ π}
    (hv : ∀ v, K.advance a (K.point t l) = some v → J t v)
    (h : ∀ u q, u ≠ t → K.point u l = some q → J u q) :
    ∀ u q, K.point u (Item.task t a :: l) = some q → J u q := by
  intro u q hq
  unfold point at hq
  split_ifs at hq with hu
  · subst hu
    exact hv q hq
  · exact h u q (Ne.symm hu) hq

/-- **What no task disturbs holds at every control point of every run.** -/
theorem Undisturbed.traj {J : σ → ℕ → Pc → Prop} (U : K.Undisturbed S C J)
    (tr : K.Traj S init C s P run l) : ∀ u q, P u = some q → J s u q := by
  induction tr with
  | init => exact nofun
  | start _ _ may c ih => exact forall_update (U.enter may c) fun u q _ hq => U.begin may (ih u q hq) c
  | wake _ at_ site may c ih =>
    exact forall_update (U.wake (ih _ _ at_) site may c) fun u q _ hq => ih u q hq
  | emit tr at_ ok c ih =>
    have hl := tr.point_eq
    subst hl
    exact forall_update (U.emit (ih _ _ at_) at_ ok c) fun u q hu hq =>
      U.other hu (ih u q hq) hq (ih _ _ at_) at_ ok c
  | toss _ at_ c ih => exact forall_update (U.toss (ih _ _ at_) c) fun u q _ hq => ih u q hq
  | park tr at_ ok c ih =>
    have hl := tr.point_eq
    subst hl
    exact forall_update (U.park (ih _ _ at_) at_ ok c) fun u q _ hq => ih u q hq
  | @stop s P l t pc _ _ _ _ ih =>
    intro u q hq
    rcases eq_or_ne u t with rfl | hu
    · simp at hq
    · rw [Function.update_of_ne hu] at hq
      exact ih u q hq
  | drift _ c ih => exact fun u q hq => U.drift (ih u q hq) c
  | crash => exact nofun

/-- **A maintained property holds in every run.** -/
theorem Maintained.traj {I : σ → List (Item Ev κ ι ρ π δ) → Prop} (M : K.Maintained S init C I)
    (tr : K.Traj S init C s P run l) : I s l := by
  induction tr with
  | init h => exact M.init h
  | start tr fresh may c ih =>
    obtain rfl := tr.point_eq
    exact M.start ih fresh may c
  | wake tr at_ site may c ih =>
    obtain rfl := tr.point_eq
    exact M.wake ih at_ site may c
  | emit tr at_ ok c ih =>
    obtain rfl := tr.point_eq
    exact M.emit ih at_ ok c
  | toss tr at_ c ih =>
    obtain rfl := tr.point_eq
    exact M.toss ih at_ c
  | park tr at_ ok c ih =>
    obtain rfl := tr.point_eq
    exact M.park ih at_ ok c
  | stop tr at_ ok c ih =>
    obtain rfl := tr.point_eq
    exact M.stop ih at_ ok c
  | drift _ c ih => exact M.drift ih c
  | crash _ c ih => exact M.crash ih c

/-- A weaker condition allows more runs. -/
theorem Traj.mono {C' : σ → List (Item Ev κ ι ρ π δ) → Item Ev κ ι ρ π δ → Prop}
    (h : ∀ s l x, C s l x → C' s l x) (tr : K.Traj S init C s P run l) :
    K.Traj S init C' s P run l := by
  induction tr with
  | init hi => exact .init hi
  | start _ fresh may c ih => exact .start ih fresh may (h _ _ _ c)
  | wake _ at_ site may c ih => exact .wake ih at_ site may (h _ _ _ c)
  | emit _ at_ ok c ih => exact .emit ih at_ ok (h _ _ _ c)
  | toss _ at_ c ih => exact .toss ih at_ (h _ _ _ c)
  | park _ at_ ok c ih => exact .park ih at_ ok (h _ _ _ c)
  | stop _ at_ ok c ih => exact .stop ih at_ ok (h _ _ _ c)
  | drift _ c ih => exact .drift ih (h _ _ _ c)
  | crash _ c ih => exact .crash ih (h _ _ _ c)

/-- **What holds in all runs of a condition may be used as part of it.** -/
theorem Traj.knowing {I : σ → List (Item Ev κ ι ρ π δ) → Prop}
    (hI : ∀ {s P run l}, K.Traj S init C s P run l → I s l) (tr : K.Traj S init C s P run l) :
    K.Traj S init (fun s l x => C s l x ∧ I s l) s P run l := by
  induction tr with
  | init h => exact .init h
  | start tr fresh may c ih => exact .start ih fresh may ⟨c, hI tr⟩
  | wake tr at_ site may c ih => exact .wake ih at_ site may ⟨c, hI tr⟩
  | emit tr at_ ok c ih => exact .emit ih at_ ok ⟨c, hI tr⟩
  | toss tr at_ c ih => exact .toss ih at_ ⟨c, hI tr⟩
  | park tr at_ ok c ih => exact .park ih at_ ok ⟨c, hI tr⟩
  | stop tr at_ ok c ih => exact .stop ih at_ ok ⟨c, hI tr⟩
  | drift tr c ih => exact .drift ih ⟨c, hI tr⟩
  | crash tr c ih => exact .crash ih ⟨c, hI tr⟩

/-- Only an await suspends a task, and only an answer takes it up again. -/
structure Sited (K : Contract σ Ev κ ι ρ π Pc) : Prop where
  enter (p) : K.site (K.enter p) = none
  wake (pc i r) : K.site (K.next pc (.wake i r)) = none
  emit {pc} (e) : K.site pc = none → K.site (K.next pc (.emit e)) = none
  toss {pc} (q b) : K.site pc = none → K.site (K.next pc (.toss q b)) = none
  park (pc i) : K.site (K.next pc (.park i)) = some i

/-- The entries of a task that runs. -/
def Entry.running : Entry Ev κ ι ρ π → Bool
  | .start _ | .wake .. => false
  | _ => true

/-- All tasks but the one that the item is of are suspended, and that one is not. -/
def Alone (K : Contract σ Ev κ ι ρ π Pc) (l : List (Item Ev κ ι ρ π δ)) :
    Item Ev κ ι ρ π δ → Prop
  | .task t a => (∀ u q, u ≠ t → K.point u l = some q → ∃ i, K.site q = some i) ∧
      (Entry.running a = true → ∀ q, K.point t l = some q → K.site q = none)
  | _ => True

/-- The running task is not suspended, all others are. -/
theorem Traj.suspended (hs : K.Sited) (tr : K.Traj S init C s P run l) :
    ∀ u q, P u = some q →
      (run = some u → K.site q = none) ∧ (run ≠ some u → ∃ i, K.site q = some i) := by
  have moved : ∀ {P : ℕ → Option Pc} {t : ℕ} {v : Pc}, K.site v = none →
      (∀ u q, u ≠ t → P u = some q → ∃ i, K.site q = some i) →
      ∀ u q, Function.update P t (some v) u = some q →
        (some t = some u → K.site q = none) ∧ (some t ≠ some u → ∃ i, K.site q = some i) := by
    intro P t v hv h
    refine forall_update ⟨fun _ => hv, fun h => absurd rfl h⟩ fun u q hu hq => ?_
    exact ⟨fun h => absurd (Option.some.inj h).symm hu, fun _ => h u q hu hq⟩
  have others : ∀ {P : ℕ → Option Pc} {t : ℕ}, (∀ u q, P u = some q →
      (some t = some u → K.site q = none) ∧ (some t ≠ some u → ∃ i, K.site q = some i)) →
      ∀ u q, u ≠ t → P u = some q → ∃ i, K.site q = some i := fun ih u q hu hq =>
    (ih u q hq).2 fun h => hu (Option.some.inj h).symm
  induction tr with
  | init => exact nofun
  | start _ _ _ _ ih => exact moved (hs.enter _) fun u q _ hq => (ih u q hq).2 nofun
  | wake _ _ _ _ _ ih => exact moved (hs.wake ..) fun u q _ hq => (ih u q hq).2 nofun
  | emit _ at_ _ _ ih => exact moved (hs.emit _ ((ih _ _ at_).1 rfl)) (others ih)
  | toss _ at_ _ ih => exact moved (hs.toss _ _ ((ih _ _ at_).1 rfl)) (others ih)
  | park _ _ _ _ ih =>
    refine forall_update ⟨nofun, fun _ => ⟨_, hs.park ..⟩⟩ fun u q hu hq => ?_
    exact ⟨nofun, fun _ => others ih u q hu hq⟩
  | @stop s P l t pc _ _ _ _ ih =>
    intro u q hq
    rcases eq_or_ne u t with rfl | hu
    · rw [Function.update_self] at hq
      cases hq
    · rw [Function.update_of_ne hu] at hq
      exact ⟨nofun, fun _ => others ih u q hu hq⟩
  | drift _ _ ih => exact ih
  | crash => exact nofun

/-- **Only one task runs at a time.** -/
theorem Traj.alone (hs : K.Sited) (tr : K.Traj S init C s P run l) :
    K.Traj S init (fun s l x => C s l x ∧ K.Alone l x) s P run l := by
  have others : ∀ {s : σ} {P : ℕ → Option Pc} {run : Option ℕ} {l : List (Item Ev κ ι ρ π δ)} {t : ℕ},
      K.Traj S init C s P run l → (run = none ∨ run = some t) →
      ∀ u q, u ≠ t → K.point u l = some q → ∃ i, K.site q = some i := by
    intro s P run l t tr hrun u q hu hq
    refine (tr.suspended hs u q (by rw [tr.point_eq]; exact hq)).2 fun h => ?_
    rcases hrun with rfl | rfl
    · cases h
    · exact hu (Option.some.inj h).symm
  have own : ∀ {s : σ} {P : ℕ → Option Pc} {l : List (Item Ev κ ι ρ π δ)} {t : ℕ},
      K.Traj S init C s P (some t) l → ∀ q, K.point t l = some q → K.site q = none :=
    fun tr q hq => (tr.suspended hs _ q (by rw [tr.point_eq]; exact hq)).1 rfl
  induction tr with
  | init h => exact .init h
  | start tr fresh may c ih => exact .start ih fresh may ⟨c, others tr (.inl rfl), nofun⟩
  | wake tr at_ site may c ih => exact .wake ih at_ site may ⟨c, others tr (.inl rfl), nofun⟩
  | emit tr at_ ok c ih => exact .emit ih at_ ok ⟨c, others tr (.inr rfl), fun _ => own tr⟩
  | toss tr at_ c ih => exact .toss ih at_ ⟨c, others tr (.inr rfl), fun _ => own tr⟩
  | park tr at_ ok c ih => exact .park ih at_ ok ⟨c, others tr (.inr rfl), fun _ => own tr⟩
  | stop tr at_ ok c ih => exact .stop ih at_ ok ⟨c, others tr (.inr rfl), fun _ => own tr⟩
  | drift tr c ih => exact .drift ih ⟨c, trivial⟩
  | crash tr c ih => exact .crash ih ⟨c, trivial⟩

end Contract
end MorpheusGateway
