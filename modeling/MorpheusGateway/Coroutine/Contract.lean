/-
# Contracts: what a task may do, judged one piece at a time

A `Contract` gives each task a control point `Pc` that its log entries move
(`next`), and says which entries are in order at which control point and state
(`ok`).  `wp` computes, by recursion on a coroutine, that all its entries are in
order whatever the other tasks do meanwhile: between a suspension and the answer
the state is arbitrary, except that it `grows`.  The rules `wp_bind`, `wp_tryCatch`
and `wp_tryFinally` follow the way programs are composed.

Once every body keeps the contract (`Holds`), the coroutines can be forgotten.
A `Traj` is a run of control points: any entry that is in order may come next.
`reach_traj` says that every run of the system is one, so an invariant of all
runs is proved by induction on `Traj`, with one case for each kind of entry and
no program text in sight.
-/

import MorpheusGateway.Coroutine.System

namespace MorpheusGateway

/-- Control points, how entries move them, and which entries are in order.
`site` is the await point of a control point that is suspended; `grows` is what
every change of the state respects. -/
structure Contract (σ Ev κ ι ρ π Pc : Type) where
  enter : π → Pc
  next : Pc → Entry Ev κ ι ρ π → Pc
  site : Pc → Option ι
  ok : ℕ → Pc → σ → Entry Ev κ ι ρ π → Prop
  grows : σ → σ → Prop

namespace Contract

variable {σ Ev κ ι ρ π δ Pc ε ε' α β : Type}

/-- `wp S K t c Q E pc s`: from the control point `pc` and the state `s`, every entry
`c` makes as task `t` is in order, what `c` returns satisfies `Q` and what it raises
satisfies `E`. -/
def wp (S : System σ Ev κ ι ρ π δ) (K : Contract σ Ev κ ι ρ π Pc) (t : ℕ) :
    Coro σ Ev κ ι ρ ε α → (α → Pc → σ → Prop) → (ε → Pc → σ → Prop) → Pc → σ → Prop
  | .ret a, Q, _, pc, s => Q a pc s
  | .raise e, _, E, pc, s => E e pc s
  | .read k, Q, E, pc, s => wp S K t (k s) Q E pc s
  | .emit e k, Q, E, pc, s =>
      K.ok t pc s (.emit e) ∧ wp S K t k Q E (K.next pc (.emit e)) (S.apply t e s)
  | .toss q k, Q, E, pc, s => ∀ b, wp S K t (k b) Q E (K.next pc (.toss q b)) s
  | .await i k, Q, E, pc, s =>
      K.ok t pc s (.park i) ∧ ∀ s' r, K.grows s s' → S.legal s' t i r = true →
        wp S K t (k r) Q E (K.next (K.next pc (.park i)) (.wake i r)) s'

section Rules

variable {S : System σ Ev κ ι ρ π δ} {K : Contract σ Ev κ ι ρ π Pc} {t : ℕ}
  {pc : Pc} {s : σ} {E : ε → Pc → σ → Prop}

/-- A coroutine that returns makes no entry. -/
@[simp] theorem wp_ret {Q : α → Pc → σ → Prop} (a : α) :
    K.wp S t (.ret a) Q E pc s ↔ Q a pc s := Iff.rfl

/-- The same for `pure`. -/
@[simp] theorem wp_pure {Q : α → Pc → σ → Prop} (a : α) :
    K.wp S t (pure a) Q E pc s ↔ Q a pc s := Iff.rfl

/-- Nor does one that raises. -/
@[simp] theorem wp_raise {Q : α → Pc → σ → Prop} (e : ε) :
    K.wp S t (.raise e) Q E pc s ↔ E e pc s := Iff.rfl

/-- Nor does a look at the state. -/
@[simp] theorem wp_get {Q : σ → Pc → σ → Prop} :
    K.wp S t Coro.get Q E pc s ↔ Q s pc s := Iff.rfl

/-- An event has to be in order. -/
@[simp] theorem wp_perform {Q : Unit → Pc → σ → Prop} (e : Ev) :
    K.wp S t (Coro.perform e) Q E pc s ↔
      K.ok t pc s (.emit e) ∧ Q () (K.next pc (.emit e)) (S.apply t e s) := Iff.rfl

/-- An operation may fail or not. -/
@[simp] theorem wp_fails {Q : Bool → Pc → σ → Prop} (q : κ) :
    K.wp S t (Coro.fails q) Q E pc s ↔ ∀ b, Q b (K.next pc (.toss q b)) s := Iff.rfl

/-- An await has to be in order, and whatever is answered is gone on with. -/
@[simp] theorem wp_suspend {Q : ρ → Pc → σ → Prop} (i : ι) :
    K.wp S t (Coro.suspend i) Q E pc s ↔
      K.ok t pc s (.park i) ∧ ∀ s' r, K.grows s s' → S.legal s' t i r = true →
        Q r (K.next (K.next pc (.park i)) (.wake i r)) s' := Iff.rfl

/-- **Sequencing.**  What `c` returns goes on with `f`; what it raises is raised. -/
theorem wp_bind (c : Coro σ Ev κ ι ρ ε α) {f : α → Coro σ Ev κ ι ρ ε β}
    {Q : β → Pc → σ → Prop} {pc : Pc} {s : σ} :
    K.wp S t (c.bind f) Q E pc s ↔ K.wp S t c (fun a => K.wp S t (f a) Q E) E pc s := by
  induction c generalizing pc s with
  | ret a => exact Iff.rfl
  | raise e => exact Iff.rfl
  | read k ih => exact ih s
  | emit e k ih => exact and_congr_right fun _ => ih
  | toss q k ih => exact forall_congr' fun b => ih b
  | await i k ih =>
    exact and_congr_right fun _ => forall_congr' fun s' => forall_congr' fun r =>
      forall_congr' fun _ => forall_congr' fun _ => ih r

/-- **Sequencing**, as `do` writes it. -/
@[simp] theorem wp_bind' (c : Coro σ Ev κ ι ρ ε α) {f : α → Coro σ Ev κ ι ρ ε β}
    {Q : β → Pc → σ → Prop} {pc : Pc} {s : σ} :
    K.wp S t (c >>= f) Q E pc s ↔ K.wp S t c (fun a => K.wp S t (f a) Q E) E pc s :=
  wp_bind c

/-- A result that is ignored. -/
@[simp] theorem wp_discard (c : Coro σ Ev κ ι ρ ε α) {Q : Unit → Pc → σ → Prop} :
    K.wp S t (discard c) Q E pc s ↔ K.wp S t c (fun _ => Q ()) E pc s :=
  wp_bind c

/-- A choice. -/
@[simp] theorem wp_ite (p : Prop) [Decidable p] (c d : Coro σ Ev κ ι ρ ε α)
    {Q : α → Pc → σ → Prop} :
    K.wp S t (if p then c else d) Q E pc s ↔
      (p → K.wp S t c Q E pc s) ∧ (¬p → K.wp S t d Q E pc s) := by
  split_ifs with h
  · simp [h]
  · simp [h]

/-- `attempt` hands the outcome on as a value. -/
@[simp] theorem wp_attempt (c : Coro σ Ev κ ι ρ ε α) {E : ε' → Pc → σ → Prop}
    {Q : Except ε α → Pc → σ → Prop} {pc : Pc} {s : σ} :
    K.wp S t c.attempt Q E pc s ↔
      K.wp S t c (fun a => Q (.ok a)) (fun e => Q (.error e)) pc s := by
  induction c generalizing pc s with
  | ret a => exact Iff.rfl
  | raise e => exact Iff.rfl
  | read k ih => exact ih s
  | emit e k ih => exact and_congr_right fun _ => ih
  | toss q k ih => exact forall_congr' fun b => ih b
  | await i k ih =>
    exact and_congr_right fun _ => forall_congr' fun s' => forall_congr' fun r =>
      forall_congr' fun _ => forall_congr' fun _ => ih r

/-- **Consequence.** -/
theorem wp_mono {Q Q' : α → Pc → σ → Prop} {E E' : ε → Pc → σ → Prop}
    (hQ : ∀ a pc s, Q a pc s → Q' a pc s) (hE : ∀ e pc s, E e pc s → E' e pc s)
    (c : Coro σ Ev κ ι ρ ε α) {pc : Pc} {s : σ} (w : K.wp S t c Q E pc s) :
    K.wp S t c Q' E' pc s := by
  induction c generalizing pc s with
  | ret a => exact hQ _ _ _ w
  | raise e => exact hE _ _ _ w
  | read k ih => exact ih s w
  | emit e k ih => exact ⟨w.1, ih w.2⟩
  | toss q k ih => exact fun b => ih b (w b)
  | await i k ih => exact ⟨w.1, fun s' r hs hl => ih r (w.2 s' r hs hl)⟩

/-- An outcome is returned or raised. -/
@[simp] theorem wp_ofExcept (x : Except ε α) {Q : α → Pc → σ → Prop} :
    K.wp S t (Coro.ofExcept x) Q E pc s ↔
      (∀ a, x = .ok a → Q a pc s) ∧ ∀ e, x = .error e → E e pc s := by
  cases x <;> simp [Coro.ofExcept]

/-- **`except`.**  The handler goes on from where the exception was raised. -/
@[simp] theorem wp_tryCatch (c : Coro σ Ev κ ι ρ ε α) {h : ε → Coro σ Ev κ ι ρ ε' α}
    {Q : α → Pc → σ → Prop} {E : ε' → Pc → σ → Prop} {pc : Pc} {s : σ} :
    K.wp S t (c.tryCatch h) Q E pc s ↔
      K.wp S t c Q (fun e => K.wp S t (h e) Q E) pc s := by
  rw [Coro.tryCatch, wp_bind, wp_attempt]
  exact Iff.rfl

/-- Another error in place of the one that is raised. -/
@[simp] theorem wp_mapError (f : ε → ε') (c : Coro σ Ev κ ι ρ ε α) {Q : α → Pc → σ → Prop}
    {E : ε' → Pc → σ → Prop} {pc : Pc} {s : σ} :
    K.wp S t (c.mapError f) Q E pc s ↔ K.wp S t c Q (fun e => E (f e)) pc s := by
  rw [Coro.mapError, wp_bind, wp_attempt]
  exact Iff.rfl

/-- **`finally`.**  The second part runs on every outcome of the first and only
its own exception replaces that outcome. -/
@[simp] theorem wp_tryFinally (c : Coro σ Ev κ ι ρ ε α) {after : Coro σ Ev κ ι ρ ε Unit}
    {Q : α → Pc → σ → Prop} {pc : Pc} {s : σ} :
    K.wp S t (c.tryFinally after) Q E pc s ↔
      K.wp S t c (fun a => K.wp S t after (fun _ => Q a) E)
        (fun e => K.wp S t after (fun _ => E e) E) pc s := by
  rw [Coro.tryFinally, wp_bind, wp_attempt]
  constructor
  · refine wp_mono (fun a pc s w => ?_) (fun e pc s w => ?_) c
    · exact (wp_bind after).1 w
    · exact (wp_bind after).1 w
  · refine wp_mono (fun a pc s w => ?_) (fun e pc s w => ?_) c
    · exact (wp_bind after).2 w
    · exact (wp_bind after).2 w

end Rules

/-! ### Runs of control points -/

/-- Every body keeps the contract, and every change of the state `grows`. -/
structure Holds (S : System σ Ev κ ι ρ π δ) (K : Contract σ Ev κ ι ρ π Pc) : Prop where
  body {s t p s'} (h : S.begin s t p = some s') :
    K.wp S t (S.body t p) (fun _ pc s => K.ok t pc s .stop) (fun e => nomatch e)
      (K.enter p) s'
  site_park (pc i) : K.site (K.next pc (.park i)) = some i
  refl (s) : K.grows s s
  trans {a b c} : K.grows a b → K.grows b c → K.grows a c
  emit {t pc s e} (h : K.ok t pc s (.emit e)) : K.grows s (S.apply t e s)
  begin {s t p s'} (h : S.begin s t p = some s') : K.grows s s'
  drift (d s) : K.grows s (S.drift d s)

/-- A run in which every entry is in order.  `P t` is the control point of the
task `t`, and `run` the task in the middle of a piece. -/
inductive Traj (S : System σ Ev κ ι ρ π δ) (K : Contract σ Ev κ ι ρ π Pc) (init : σ → Prop)
    (C : σ → List (Item Ev κ ι ρ π δ) → Item Ev κ ι ρ π δ → Prop) :
    σ → (ℕ → Option Pc) → Option ℕ → List (Item Ev κ ι ρ π δ) → Prop
  | init {s} (h : init s) : Traj S K init C s (fun _ => none) none []
  | start {s P l t p s'} (tr : Traj S K init C s P none l) (fresh : P t = none)
      (may : S.begin s t p = some s') (c : C s l (.task t (.start p))) :
      Traj S K init C s' (Function.update P t (some (K.enter p))) (some t)
        (.task t (.start p) :: l)
  | wake {s P l t pc i r} (tr : Traj S K init C s P none l) (at_ : P t = some pc)
      (site : K.site pc = some i) (may : S.legal s t i r = true)
      (c : C s l (.task t (.wake i r))) :
      Traj S K init C s (Function.update P t (some (K.next pc (.wake i r)))) (some t)
        (.task t (.wake i r) :: l)
  | emit {s P l t pc e} (tr : Traj S K init C s P (some t) l) (at_ : P t = some pc)
      (ok : K.ok t pc s (.emit e)) (c : C s l (.task t (.emit e))) :
      Traj S K init C (S.apply t e s) (Function.update P t (some (K.next pc (.emit e)))) (some t)
        (.task t (.emit e) :: l)
  | toss {s P l t pc q b} (tr : Traj S K init C s P (some t) l) (at_ : P t = some pc)
      (c : C s l (.task t (.toss q b))) :
      Traj S K init C s (Function.update P t (some (K.next pc (.toss q b)))) (some t)
        (.task t (.toss q b) :: l)
  | park {s P l t pc i} (tr : Traj S K init C s P (some t) l) (at_ : P t = some pc)
      (ok : K.ok t pc s (.park i)) (c : C s l (.task t (.park i))) :
      Traj S K init C s (Function.update P t (some (K.next pc (.park i)))) none
        (.task t (.park i) :: l)
  | stop {s P l t pc} (tr : Traj S K init C s P (some t) l) (at_ : P t = some pc)
      (ok : K.ok t pc s .stop) (c : C s l (.task t .stop)) :
      Traj S K init C s (Function.update P t none) none (.task t .stop :: l)
  | drift {s P l d} (tr : Traj S K init C s P none l) (c : C s l (.drift d)) :
      Traj S K init C (S.drift d s) P none (.drift d :: l)
  | crash {s P run l} (tr : Traj S K init C s P run l) (c : C s l .crash) :
      Traj S K init C (S.reset s) (fun _ => none) none (.crash :: l)

/-- The tasks of a configuration are at the control points `P`, and what is left
of each keeps the contract. -/
structure Fits (S : System σ Ev κ ι ρ π δ) (K : Contract σ Ev κ ι ρ π Pc)
    (c : Machine σ Ev κ ι ρ π δ) (P : ℕ → Option Pc) : Prop where
  pool {t i k} (h : c.pool t = some ⟨i, k⟩) : ∃ pc, P t = some pc ∧ K.site pc = some i ∧
    ∀ s r, K.grows c.state s → S.legal s t i r = true →
      K.wp S t (k r) (fun _ pc s => K.ok t pc s .stop) (fun e => nomatch e)
        (K.next pc (.wake i r)) s
  running {t co} (h : c.running = some (t, co)) : c.pool t = none ∧ ∃ pc, P t = some pc ∧
    K.wp S t co (fun _ pc s => K.ok t pc s .stop) (fun e => nomatch e) pc c.state
  idle {t} (h : c.pool t = none) (hr : ∀ co, c.running ≠ some (t, co)) : P t = none

variable {S : System σ Ev κ ι ρ π δ} {K : Contract σ Ev κ ι ρ π Pc} {init : σ → Prop}
  {C : σ → List (Item Ev κ ι ρ π δ) → Item Ev κ ι ρ π δ → Prop}

/-- Another task's suspension stays in order while this one moves. -/
theorem Fits.pool_of_ne (H : K.Holds S) {c : Machine σ Ev κ ι ρ π δ} {P : ℕ → Option Pc}
    (f : K.Fits S c P) {t u : ℕ} (hu : u ≠ t) {v : Option Pc} {s : σ} (hs : K.grows c.state s)
    {i : ι} {k : ρ → Coro σ Ev κ ι ρ Empty Unit} (h : c.pool u = some ⟨i, k⟩) :
    ∃ pc, Function.update P t v u = some pc ∧ K.site pc = some i ∧
      ∀ s' r, K.grows s s' → S.legal s' u i r = true →
        K.wp S u (k r) (fun _ pc s => K.ok u pc s .stop) (fun e => nomatch e)
          (K.next pc (.wake i r)) s' := by
  obtain ⟨pc, hpc, hsite, hk⟩ := f.pool h
  exact ⟨pc, by rw [Function.update_of_ne hu, hpc], hsite, fun s' r hs' => hk s' r (H.trans hs hs')⟩

/-- **Every run of a system whose bodies keep the contract is a run of control
points.** -/
theorem reach_traj (H : K.Holds S) {c : Machine σ Ev κ ι ρ π δ} (r : S.Reach init C c) :
    ∃ P, K.Traj S init C c.state P (c.running.map Prod.fst) c.log ∧ K.Fits S c P := by
  induction r with
  | init h =>
    exact ⟨_, .init h, ⟨fun h => (nomatch h), fun h => (nomatch h), fun _ _ => rfl⟩⟩
  | @step c a c' _ st ok ih =>
    obtain ⟨P, tr, f⟩ := ih
    cases st with
    | @start s s' pool log t p fresh may =>
      have hP : P t = none := f.idle fresh fun _ => nofun
      refine ⟨_, .start tr hP may (ok _ rfl), ⟨fun {u i k} h => ?_, fun {u co} h => ?_, ?_⟩⟩
      · have hu : u ≠ t := by rintro rfl; simp_all
        exact f.pool_of_ne H hu (H.begin may) h
      · obtain ⟨rfl, rfl⟩ := Prod.mk.inj (Option.some.inj h)
        exact ⟨fresh, _, Function.update_self .., H.body may⟩
      · intro u hu hr
        have hut : u ≠ t := by rintro rfl; exact hr _ rfl
        rw [Function.update_of_ne hut]
        exact f.idle hu fun _ => nofun
    | @wake s pool log t i k r waits may =>
      obtain ⟨pc, hpc, hsite, hk⟩ := f.pool waits
      refine ⟨_, .wake tr hpc hsite may (ok _ rfl), ⟨fun {u j k'} h => ?_, fun {u co} h => ?_, ?_⟩⟩
      · have hu : u ≠ t := by rintro rfl; simp at h
        exact f.pool_of_ne H hu (H.refl _) (by simpa [hu] using h)
      · obtain ⟨rfl, rfl⟩ := Prod.mk.inj (Option.some.inj h)
        exact ⟨Function.update_self .., _, Function.update_self .., hk s r (H.refl _) may⟩
      · intro u hu hr
        have hut : u ≠ t := by rintro rfl; exact hr _ rfl
        rw [Function.update_of_ne hut]
        exact f.idle (by simpa [hut] using hu) fun _ => nofun
    | @read s pool log t k =>
      obtain ⟨hpool, pc, hpc, hk⟩ := f.running rfl
      refine ⟨P, tr, ⟨f.pool, fun {u co} h => ?_, fun {u} hu hr => f.idle hu fun co hc => ?_⟩⟩
      · obtain ⟨rfl, rfl⟩ := Prod.mk.inj (Option.some.inj h)
        exact ⟨hpool, pc, hpc, hk⟩
      · obtain ⟨rfl, -⟩ := Prod.mk.inj (Option.some.inj hc)
        exact hr _ rfl
    | @emit s pool log t e k =>
      obtain ⟨hpool, pc, hpc, hok, hk⟩ := f.running rfl
      refine ⟨_, .emit tr hpc hok (ok _ rfl), ⟨fun {u i k'} h => ?_, fun {u co} h => ?_, ?_⟩⟩
      · have hu : u ≠ t := by rintro rfl; simp_all
        exact f.pool_of_ne H hu (H.emit hok) h
      · obtain ⟨rfl, rfl⟩ := Prod.mk.inj (Option.some.inj h)
        exact ⟨hpool, _, Function.update_self .., hk⟩
      · intro u hu hr
        have hut : u ≠ t := by rintro rfl; exact hr _ rfl
        rw [Function.update_of_ne hut]
        exact f.idle hu fun co hc => hut (Prod.mk.inj (Option.some.inj hc)).1.symm
    | @toss s pool log t q k b =>
      obtain ⟨hpool, pc, hpc, hk⟩ := f.running rfl
      refine ⟨_, .toss tr hpc (ok _ rfl), ⟨fun {u i k'} h => ?_, fun {u co} h => ?_, ?_⟩⟩
      · have hu : u ≠ t := by rintro rfl; simp_all
        exact f.pool_of_ne H hu (H.refl _) h
      · obtain ⟨rfl, rfl⟩ := Prod.mk.inj (Option.some.inj h)
        exact ⟨hpool, _, Function.update_self .., hk b⟩
      · intro u hu hr
        have hut : u ≠ t := by rintro rfl; exact hr _ rfl
        rw [Function.update_of_ne hut]
        exact f.idle hu fun co hc => hut (Prod.mk.inj (Option.some.inj hc)).1.symm
    | @park s pool log t i k =>
      obtain ⟨hpool, pc, hpc, hok, hk⟩ := f.running rfl
      refine ⟨_, .park tr hpc hok (ok _ rfl), ⟨fun {u j k'} h => ?_, fun h => (nomatch h), ?_⟩⟩
      · rcases eq_or_ne u t with rfl | hu
        · obtain ⟨rfl, rfl⟩ : i = j ∧ k = k' := by simpa using h
          exact ⟨_, Function.update_self .., H.site_park pc i, hk⟩
        · exact f.pool_of_ne H hu (H.refl _) (by simpa [hu] using h)
      · intro u hu _
        have hut : u ≠ t := by rintro rfl; simp at hu
        rw [Function.update_of_ne hut]
        exact f.idle (by simpa [hut] using hu) fun co hc =>
          hut (Prod.mk.inj (Option.some.inj hc)).1.symm
    | @stop s pool log t u =>
      obtain ⟨hpool, pc, hpc, hok⟩ := f.running rfl
      refine ⟨_, .stop tr hpc hok (ok _ rfl), ⟨fun {u j k'} h => ?_, fun h => (nomatch h), ?_⟩⟩
      · have hu : u ≠ t := by rintro rfl; simp_all
        exact f.pool_of_ne H hu (H.refl _) h
      · intro u hu _
        rcases eq_or_ne u t with rfl | hut
        · exact Function.update_self ..
        · rw [Function.update_of_ne hut]
          exact f.idle hu fun co hc => hut (Prod.mk.inj (Option.some.inj hc)).1.symm
    | drift d =>
      refine ⟨P, .drift tr (ok _ rfl), ⟨fun {u i k} h => ?_, fun h => (nomatch h), f.idle⟩⟩
      obtain ⟨pc, hpc, hsite, hk⟩ := f.pool h
      exact ⟨pc, hpc, hsite, fun s' r hs' => hk s' r (H.trans (H.drift d _) hs')⟩
    | crash =>
      exact ⟨_, .crash tr (ok _ rfl), ⟨fun h => (nomatch h), fun h => (nomatch h), fun _ _ => rfl⟩⟩

/-! ### Control points from the log -/

/-- How an entry moves the control point of its task. -/
def advance (K : Contract σ Ev κ ι ρ π Pc) : Entry Ev κ ι ρ π → Option Pc → Option Pc
  | .start p, _ => some (K.enter p)
  | .stop, _ => none
  | a, pc => pc.map (K.next · a)

/-- The control point of the task `t`, as the log tells it. -/
def point (K : Contract σ Ev κ ι ρ π Pc) (t : ℕ) : List (Item Ev κ ι ρ π δ) → Option Pc
  | [] => none
  | .task u a :: l => if u = t then K.advance a (K.point t l) else K.point t l
  | .drift _ :: l => K.point t l
  | .crash :: _ => none

/-- **The log tells all control points.** -/
theorem Traj.point_eq {s : σ} {P : ℕ → Option Pc} {run : Option ℕ}
    {l : List (Item Ev κ ι ρ π δ)} (tr : K.Traj S init C s P run l) :
    P = fun t => K.point t l := by
  have moved : ∀ {P : ℕ → Option Pc} {t : ℕ} {v : Option Pc} {a : Entry Ev κ ι ρ π}
      {l : List (Item Ev κ ι ρ π δ)}, (P = fun t => K.point t l) → v = K.advance a (P t) →
      Function.update P t v = fun u => K.point u (.task t a :: l) := by
    rintro P t v a l rfl rfl
    funext u
    by_cases h : t = u
    · subst h
      simp [point]
    · rw [Function.update_of_ne (Ne.symm h)]
      simp [point, h]
  induction tr with
  | init => rfl
  | start _ _ _ _ ih => exact moved ih rfl
  | wake _ at_ _ _ _ ih => exact moved ih (by rw [at_]; rfl)
  | emit _ at_ _ _ ih => exact moved ih (by rw [at_]; rfl)
  | toss _ at_ _ ih => exact moved ih (by rw [at_]; rfl)
  | park _ at_ _ _ ih => exact moved ih (by rw [at_]; rfl)
  | stop _ at_ _ _ ih => exact moved ih rfl
  | drift _ _ ih => exact ih
  | crash => rfl

/-- An event of a run is in order at the control point of its task. -/
theorem ok_of_emit (H : K.Holds S) {c c' : Machine σ Ev κ ι ρ π δ} {t : ℕ} {e : Ev}
    (r : S.Reach init C c) (st : S.Step c (some (.task t (.emit e))) c') :
    ∃ P pc, K.Traj S init C c.state P (some t) c.log ∧ P t = some pc ∧
      K.ok t pc c.state (.emit e) := by
  obtain ⟨P, tr, f⟩ := reach_traj H r
  cases st with
  | emit =>
    obtain ⟨-, pc, hpc, hok, -⟩ := f.running rfl
    exact ⟨P, pc, tr, hpc, hok⟩

/-- An await of a run is in order at the control point of its task. -/
theorem ok_of_park (H : K.Holds S) {c c' : Machine σ Ev κ ι ρ π δ} {t : ℕ} {i : ι}
    (r : S.Reach init C c) (st : S.Step c (some (.task t (.park i))) c') :
    ∃ P pc, K.Traj S init C c.state P (some t) c.log ∧ P t = some pc ∧
      K.ok t pc c.state (.park i) := by
  obtain ⟨P, tr, f⟩ := reach_traj H r
  cases st with
  | park =>
    obtain ⟨-, pc, hpc, hok, -⟩ := f.running rfl
    exact ⟨P, pc, tr, hpc, hok⟩

/-- A task of a run ends in order. -/
theorem ok_of_stop (H : K.Holds S) {c c' : Machine σ Ev κ ι ρ π δ} {t : ℕ}
    (r : S.Reach init C c) (st : S.Step c (some (.task t .stop)) c') :
    ∃ P pc, K.Traj S init C c.state P (some t) c.log ∧ P t = some pc ∧ K.ok t pc c.state .stop := by
  obtain ⟨P, tr, f⟩ := reach_traj H r
  cases st with
  | stop =>
    obtain ⟨-, pc, hpc, hok⟩ := f.running rfl
    exact ⟨P, pc, tr, hpc, hok⟩

end Contract
end MorpheusGateway
