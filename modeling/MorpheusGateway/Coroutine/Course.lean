/-
# The course of a task

`wp` judges a coroutine before it runs.  `leads` looks back: it says that the log of a run
may go on from `l`, while the task `t` runs the coroutine `c`, to the end of `c` with an
outcome and a log that satisfy `Q`, or to an event or await that is about to come and
satisfies `R`.  The states that `c` reads on the way are the states of that run, because the
log and the state a run began in determine all others (`replay`).

`Ran` is one course of `c` to its end and `Meets` one to an entry; every course that `leads`
speaks of is one of them (`leads_iff`).  The rules follow the way programs are composed, as
those of `wp` do.  `reach_course` says that the tasks of a run have come from their bodies:
what leads on from where a task is leads on from its start.
-/

import MorpheusGateway.Coroutine.Contract
import Mathlib.Data.List.Infix

namespace MorpheusGateway
namespace Contract

variable {σ Ev κ ι ρ π δ Pc ε ε' α β : Type}

/-! ### Logs and states -/

/-- The state after a log that began in `s`. -/
def replay (S : System σ Ev κ ι ρ π δ) (s : σ) : List (Item Ev κ ι ρ π δ) → σ
  | [] => s
  | .task t (.start p) :: l => (S.begin (replay S s l) t p).getD (replay S s l)
  | .task t (.emit e) :: l => S.apply t e (replay S s l)
  | .task _ (.wake ..) :: l | .task _ (.toss ..) :: l | .task _ (.park _) :: l
  | .task _ .stop :: l => replay S s l
  | .drift d :: l => S.drift d (replay S s l)
  | .crash :: l => S.reset (replay S s l)

/-- The item is not one of the task `t`, nor does it end it. -/
def Item.Aside (t : ℕ) : Item Ev κ ι ρ π δ → Prop
  | .task u _ => u ≠ t
  | .drift _ => True
  | .crash => False

/-- The item may stand in the log while the task `t` goes on. -/
def Item.During (t : ℕ) : Item Ev κ ι ρ π δ → Prop
  | .task u (.start _) => u ≠ t
  | .task _ _ | .drift _ => True
  | .crash => False

/-- What others do may happen during the task. -/
theorem Item.Aside.during {t : ℕ} {x : Item Ev κ ι ρ π δ} (h : Item.Aside t x) : Item.During t x := by
  cases x with
  | task u a =>
    cases a with
    | start p => exact h
    | _ => exact trivial
  | drift d => exact trivial
  | crash => exact h

/-- The program of the task `t`, and the log at its start. -/
def started (t : ℕ) : List (Item Ev κ ι ρ π δ) → Option (π × List (Item Ev κ ι ρ π δ))
  | [] | .crash :: _ => none
  | .task u (.start p) :: l => if u = t then some (p, .task u (.start p) :: l) else started t l
  | .task _ _ :: l | .drift _ :: l => started t l

/-- What others do does not change when the task was started. -/
theorem started_aside {t : ℕ} {m : List (Item Ev κ ι ρ π δ)} (h : ∀ x ∈ m, Item.Aside t x)
    (l : List (Item Ev κ ι ρ π δ)) : started t (m ++ l) = started t l := by
  induction m with
  | nil => rfl
  | cons x m ih =>
    have ih := ih fun y hy => h y (List.mem_cons_of_mem _ hy)
    have hx : Item.Aside t x := h x List.mem_cons_self
    cases x with
    | task u a =>
      cases a with
      | start p => exact (if_neg hx).trans ih
      | _ => exact ih
    | drift d => exact ih
    | crash => exact hx.elim

/-! ### Courses -/

section Course

variable (S : System σ Ev κ ι ρ π δ) (K : Contract σ Ev κ ι ρ π Pc) (s : σ) (t : ℕ)

/-- `K.leads S s t c Q R l`: a run that began in `s` and whose log is `l` may go on, with `c`
as task `t`, to an outcome and a log with `Q`, or to an event or await and a log with `R`. -/
def leads : Coro σ Ev κ ι ρ ε α → (Except ε α → List (Item Ev κ ι ρ π δ) → Prop) →
    (Entry Ev κ ι ρ π → List (Item Ev κ ι ρ π δ) → Prop) → List (Item Ev κ ι ρ π δ) → Prop
  | .ret a, Q, _, l => Q (.ok a) l
  | .raise e, Q, _, l => Q (.error e) l
  | .read k, Q, R, l => leads (k (replay S s l)) Q R l
  | .emit e k, Q, R, l => R (.emit e) l ∨ leads k Q R (.task t (.emit e) :: l)
  | .toss q k, Q, R, l => ∃ b, leads (k b) Q R (.task t (.toss q b) :: l)
  | .await i k, Q, R, l => R (.park i) l ∨ ∃ m a, (∀ x ∈ m, Item.Aside t x) ∧
      K.grows (replay S s l) (replay S s (m ++ .task t (.park i) :: l)) ∧
      S.legal (replay S s (m ++ .task t (.park i) :: l)) t i a = true ∧
      leads (k a) Q R (.task t (.wake i a) :: (m ++ .task t (.park i) :: l))

/-- From the log `l` on, `c` ran to the outcome `r`, at the log `l'`. -/
def Ran (c : Coro σ Ev κ ι ρ ε α) (l : List (Item Ev κ ι ρ π δ)) (r : Except ε α)
    (l' : List (Item Ev κ ι ρ π δ)) : Prop :=
  K.leads S s t c (fun r' m => r' = r ∧ m = l') (fun _ _ => False) l

/-- From the log `l` on, `c` came to its entry `x`, at the log `l'`. -/
def Meets (c : Coro σ Ev κ ι ρ ε α) (l : List (Item Ev κ ι ρ π δ)) (x : Entry Ev κ ι ρ π)
    (l' : List (Item Ev κ ι ρ π δ)) : Prop :=
  K.leads S s t c (fun _ _ => False) (fun x' m => x' = x ∧ m = l') l

end Course

section Rules

variable {S : System σ Ev κ ι ρ π δ} {K : Contract σ Ev κ ι ρ π Pc} {s : σ} {t : ℕ}
  {l : List (Item Ev κ ι ρ π δ)} {R : Entry Ev κ ι ρ π → List (Item Ev κ ι ρ π δ) → Prop}

/-- A coroutine that returns leads to its result. -/
@[simp] theorem leads_ret {Q : Except ε α → List (Item Ev κ ι ρ π δ) → Prop} (a : α) :
    K.leads S s t (.ret a) Q R l ↔ Q (.ok a) l := Iff.rfl

/-- The same for `pure`. -/
@[simp] theorem leads_pure {Q : Except ε α → List (Item Ev κ ι ρ π δ) → Prop} (a : α) :
    K.leads S s t (pure a) Q R l ↔ Q (.ok a) l := Iff.rfl

/-- One that raises leads to its error. -/
@[simp] theorem leads_raise {Q : Except ε α → List (Item Ev κ ι ρ π δ) → Prop} (e : ε) :
    K.leads S s t (.raise e) Q R l ↔ Q (.error e) l := Iff.rfl

/-- A look at the state shows the state that the log leads to. -/
@[simp] theorem leads_get {Q : Except ε σ → List (Item Ev κ ι ρ π δ) → Prop} :
    K.leads S s t Coro.get Q R l ↔ Q (.ok (replay S s l)) l := Iff.rfl

/-- An event is met, and then is in the log. -/
@[simp] theorem leads_perform {Q : Except ε Unit → List (Item Ev κ ι ρ π δ) → Prop} (e : Ev) :
    K.leads S s t (Coro.perform e) Q R l ↔
      R (.emit e) l ∨ Q (.ok ()) (.task t (.emit e) :: l) := Iff.rfl

/-- An operation that may fail leads both ways. -/
@[simp] theorem leads_fails {Q : Except ε Bool → List (Item Ev κ ι ρ π δ) → Prop} (q : κ) :
    K.leads S s t (Coro.fails q) Q R l ↔ ∃ b, Q (.ok b) (.task t (.toss q b) :: l) := Iff.rfl

/-- An await is met, and then others may act until it is answered. -/
@[simp] theorem leads_suspend {Q : Except ε ρ → List (Item Ev κ ι ρ π δ) → Prop} (i : ι) :
    K.leads S s t (Coro.suspend i) Q R l ↔ R (.park i) l ∨ ∃ m a, (∀ x ∈ m, Item.Aside t x) ∧
      K.grows (replay S s l) (replay S s (m ++ .task t (.park i) :: l)) ∧
      S.legal (replay S s (m ++ .task t (.park i) :: l)) t i a = true ∧
      Q (.ok a) (.task t (.wake i a) :: (m ++ .task t (.park i) :: l)) := Iff.rfl

/-- An outcome leads to itself. -/
@[simp] theorem leads_ofExcept {Q : Except ε α → List (Item Ev κ ι ρ π δ) → Prop}
    (x : Except ε α) : K.leads S s t (Coro.ofExcept x) Q R l ↔ Q x l := by
  cases x with
  | ok a => exact Iff.rfl
  | error e => exact Iff.rfl

/-- **Sequencing** of courses. -/
theorem leads_bind (c : Coro σ Ev κ ι ρ ε α) {f : α → Coro σ Ev κ ι ρ ε β}
    {Q : Except ε β → List (Item Ev κ ι ρ π δ) → Prop} {l : List (Item Ev κ ι ρ π δ)} :
    K.leads S s t (c.bind f) Q R l ↔ K.leads S s t c (fun r m => match r with
      | .ok a => K.leads S s t (f a) Q R m
      | .error e => Q (.error e) m) R l := by
  induction c generalizing l with
  | ret a => exact Iff.rfl
  | raise e => exact Iff.rfl
  | read k ih => exact ih _
  | emit e k ih => exact or_congr_right ih
  | toss q k ih => exact exists_congr fun b => ih b
  | await i k ih =>
    exact or_congr_right (exists_congr fun m => exists_congr fun a => and_congr_right fun _ =>
      and_congr_right fun _ => and_congr_right fun _ => ih a)

/-- **Sequencing**, as `do` writes it. -/
@[simp] theorem leads_bind' (c : Coro σ Ev κ ι ρ ε α) {f : α → Coro σ Ev κ ι ρ ε β}
    {Q : Except ε β → List (Item Ev κ ι ρ π δ) → Prop} :
    K.leads S s t (c >>= f) Q R l ↔ K.leads S s t c (fun r m => match r with
      | .ok a => K.leads S s t (f a) Q R m
      | .error e => Q (.error e) m) R l := leads_bind c

/-- A result that is ignored. -/
@[simp] theorem leads_discard (c : Coro σ Ev κ ι ρ ε α)
    {Q : Except ε Unit → List (Item Ev κ ι ρ π δ) → Prop} :
    K.leads S s t (discard c) Q R l ↔ K.leads S s t c (fun r m => match r with
      | .ok _ => Q (.ok ()) m
      | .error e => Q (.error e) m) R l := leads_bind c

/-- A choice leads where the chosen branch leads. -/
@[simp] theorem leads_ite (p : Prop) [Decidable p] (c d : Coro σ Ev κ ι ρ ε α)
    {Q : Except ε α → List (Item Ev κ ι ρ π δ) → Prop} :
    K.leads S s t (if p then c else d) Q R l ↔
      p ∧ K.leads S s t c Q R l ∨ ¬p ∧ K.leads S s t d Q R l := by
  split_ifs with h
  · simp [h]
  · simp [h]

/-- The course of an `attempt` is that of its coroutine. -/
@[simp] theorem leads_attempt (c : Coro σ Ev κ ι ρ ε α)
    {Q : Except ε' (Except ε α) → List (Item Ev κ ι ρ π δ) → Prop}
    {l : List (Item Ev κ ι ρ π δ)} :
    K.leads S s t c.attempt Q R l ↔ K.leads S s t c (fun r => Q (.ok r)) R l := by
  induction c generalizing l with
  | ret a => exact Iff.rfl
  | raise e => exact Iff.rfl
  | read k ih => exact ih _
  | emit e k ih => exact or_congr_right ih
  | toss q k ih => exact exists_congr fun b => ih b
  | await i k ih =>
    exact or_congr_right (exists_congr fun m => exists_congr fun a => and_congr_right fun _ =>
      and_congr_right fun _ => and_congr_right fun _ => ih a)

/-- **Consequence** for courses. -/
theorem leads_mono {Q Q' : Except ε α → List (Item Ev κ ι ρ π δ) → Prop}
    {R' : Entry Ev κ ι ρ π → List (Item Ev κ ι ρ π δ) → Prop} (hQ : ∀ r m, Q r m → Q' r m)
    (hR : ∀ x m, R x m → R' x m) (c : Coro σ Ev κ ι ρ ε α) {l : List (Item Ev κ ι ρ π δ)}
    (h : K.leads S s t c Q R l) : K.leads S s t c Q' R' l := by
  induction c generalizing l with
  | ret a => exact hQ _ _ h
  | raise e => exact hQ _ _ h
  | read k ih => exact ih _ h
  | emit e k ih => exact h.imp (hR _ _) ih
  | toss q k ih => exact h.imp fun b => ih b
  | await i k ih =>
    refine h.imp (hR _ _) fun ⟨m, a, hm, hg, hl, h⟩ => ⟨m, a, hm, hg, hl, ih a h⟩

/-- Equivalent ends are led to alike. -/
theorem leads_congr {Q Q' : Except ε α → List (Item Ev κ ι ρ π δ) → Prop}
    (h : ∀ r m, Q r m ↔ Q' r m) (c : Coro σ Ev κ ι ρ ε α) :
    K.leads S s t c Q R l ↔ K.leads S s t c Q' R l :=
  ⟨leads_mono (fun r m => (h r m).1) (fun _ _ => id) c,
    leads_mono (fun r m => (h r m).2) (fun _ _ => id) c⟩

/-- The handler of `except` goes on from where the exception was raised. -/
@[simp] theorem leads_tryCatch (c : Coro σ Ev κ ι ρ ε α) {f : ε → Coro σ Ev κ ι ρ ε' α}
    {Q : Except ε' α → List (Item Ev κ ι ρ π δ) → Prop} :
    K.leads S s t (c.tryCatch f) Q R l ↔ K.leads S s t c (fun r m => match r with
      | .ok a => Q (.ok a) m
      | .error e => K.leads S s t (f e) Q R m) R l := by
  rw [Coro.tryCatch, leads_bind, leads_attempt]
  refine leads_congr (fun r m => ?_) c
  cases r with
  | ok a => exact Iff.rfl
  | error e => exact Iff.rfl

/-- Another error in place of the one that is raised. -/
@[simp] theorem leads_mapError (f : ε → ε') (c : Coro σ Ev κ ι ρ ε α)
    {Q : Except ε' α → List (Item Ev κ ι ρ π δ) → Prop} :
    K.leads S s t (c.mapError f) Q R l ↔ K.leads S s t c (fun r m => match r with
      | .ok a => Q (.ok a) m
      | .error e => Q (.error (f e)) m) R l := leads_tryCatch c

/-- The second part of `finally` runs on every outcome of the first. -/
@[simp] theorem leads_tryFinally (c : Coro σ Ev κ ι ρ ε α) {after : Coro σ Ev κ ι ρ ε Unit}
    {Q : Except ε α → List (Item Ev κ ι ρ π δ) → Prop} :
    K.leads S s t (c.tryFinally after) Q R l ↔ K.leads S s t c (fun r m =>
      K.leads S s t after (fun q m' => match q with
        | .ok _ => Q r m'
        | .error e => Q (.error e) m') R m) R l := by
  rw [Coro.tryFinally, leads_bind, leads_attempt]
  refine leads_congr (fun r m => (leads_bind after).trans (leads_congr (fun q m' => ?_) after)) c
  cases q with
  | ok u => exact leads_ofExcept r
  | error e => exact Iff.rfl

/-- **Every course ends in an outcome or comes to an entry.** -/
theorem leads_iff (c : Coro σ Ev κ ι ρ ε α) {Q : Except ε α → List (Item Ev κ ι ρ π δ) → Prop}
    {l : List (Item Ev κ ι ρ π δ)} : K.leads S s t c Q R l ↔
      (∃ r l', K.Ran S s t c l r l' ∧ Q r l') ∨ ∃ x l', K.Meets S s t c l x l' ∧ R x l' := by
  constructor
  · intro h
    induction c generalizing l with
    | ret a => exact .inl ⟨_, l, ⟨rfl, rfl⟩, h⟩
    | raise e => exact .inl ⟨_, l, ⟨rfl, rfl⟩, h⟩
    | read k ih => exact ih _ h
    | emit e k ih =>
      rcases h with h | h
      · exact .inr ⟨_, l, .inl ⟨rfl, rfl⟩, h⟩
      · rcases ih h with ⟨r, l', h, hQ⟩ | ⟨x, l', h, hR⟩
        · exact .inl ⟨r, l', .inr h, hQ⟩
        · exact .inr ⟨x, l', .inr h, hR⟩
    | toss q k ih =>
      obtain ⟨b, h⟩ := h
      rcases ih b h with ⟨r, l', h, hQ⟩ | ⟨x, l', h, hR⟩
      · exact .inl ⟨r, l', ⟨b, h⟩, hQ⟩
      · exact .inr ⟨x, l', ⟨b, h⟩, hR⟩
    | await i k ih =>
      rcases h with h | ⟨m, a, hm, hg, hl, h⟩
      · exact .inr ⟨_, l, .inl ⟨rfl, rfl⟩, h⟩
      · rcases ih a h with ⟨r, l', h, hQ⟩ | ⟨x, l', h, hR⟩
        · exact .inl ⟨r, l', .inr ⟨m, a, hm, hg, hl, h⟩, hQ⟩
        · exact .inr ⟨x, l', .inr ⟨m, a, hm, hg, hl, h⟩, hR⟩
  · rintro (⟨r, l', h, hQ⟩ | ⟨x, l', h, hR⟩)
    · exact leads_mono (fun _ _ ⟨h1, h2⟩ => h1 ▸ h2 ▸ hQ) (fun _ _ h => h.elim) c h
    · exact leads_mono (fun _ _ h => h.elim) (fun _ _ ⟨h1, h2⟩ => h1 ▸ h2 ▸ hR) c h

/-! The rules once more, for one course. -/

/-- An entry of a sequence is met in its first part, or in its second. -/
theorem meets_bind (c : Coro σ Ev κ ι ρ ε α) {f : α → Coro σ Ev κ ι ρ ε β}
    {x : Entry Ev κ ι ρ π} {l' : List (Item Ev κ ι ρ π δ)} : K.Meets S s t (c >>= f) l x l' ↔
      K.Meets S s t c l x l' ∨
      ∃ a m, K.Ran S s t c l (.ok a) m ∧ K.Meets S s t (f a) m x l' := by
  rw [Meets, leads_bind', leads_iff]
  constructor
  · rintro (⟨q | a, m, h, hq⟩ | ⟨_, _, h, rfl, rfl⟩)
    · exact hq.elim
    · exact .inr ⟨a, m, h, hq⟩
    · exact .inl h
  · rintro (h | ⟨a, m, h, hq⟩)
    · exact .inr ⟨x, l', h, rfl, rfl⟩
    · exact .inl ⟨.ok a, m, h, hq⟩

/-- A part whose result is ignored ran as it ran. -/
theorem ran_discard (c : Coro σ Ev κ ι ρ ε α) {l' : List (Item Ev κ ι ρ π δ)} :
    K.Ran S s t (discard c) l (.ok ()) l' ↔ ∃ a, K.Ran S s t c l (.ok a) l' := by
  rw [Ran, leads_discard, leads_iff]
  constructor
  · rintro (⟨q | a, m, h, hq⟩ | ⟨_, _, -, h⟩)
    · cases hq.1
    · exact ⟨a, hq.2 ▸ h⟩
    · exact h.elim
  · rintro ⟨a, h⟩
    exact .inl ⟨.ok a, l', h, rfl, rfl⟩

/-- It met what it met. -/
theorem meets_discard (c : Coro σ Ev κ ι ρ ε α) {x : Entry Ev κ ι ρ π}
    {l' : List (Item Ev κ ι ρ π δ)} : K.Meets S s t (discard c) l x l' ↔ K.Meets S s t c l x l' := by
  rw [Meets, leads_discard]
  refine leads_congr (fun r m => ?_) c
  cases r with
  | ok a => exact Iff.rfl
  | error e => exact Iff.rfl

/-- An outcome meets nothing. -/
theorem not_meets_ofExcept {y : Except ε α} {x : Entry Ev κ ι ρ π} {l' : List (Item Ev κ ι ρ π δ)} :
    ¬K.Meets S s t (Coro.ofExcept y) l x l' :=
  fun h => (leads_ofExcept y).1 h

/-- An error that is handed on as a value changes nothing of what is met. -/
theorem meets_attempt (c : Coro σ Ev κ ι ρ ε α) {x : Entry Ev κ ι ρ π}
    {l' : List (Item Ev κ ι ρ π δ)} :
    K.Meets S s t (c.attempt : Coro σ Ev κ ι ρ ε' (Except ε α)) l x l' ↔ K.Meets S s t c l x l' :=
  leads_attempt c

/-- Nor does one that is raised as another. -/
theorem meets_mapError (f : ε → ε') (c : Coro σ Ev κ ι ρ ε α) {x : Entry Ev κ ι ρ π}
    {l' : List (Item Ev κ ι ρ π δ)} : K.Meets S s t (c.mapError f) l x l' ↔ K.Meets S s t c l x l' := by
  rw [Meets, leads_mapError]
  refine leads_congr (fun r m => ?_) c
  cases r with
  | ok a => exact Iff.rfl
  | error e => exact Iff.rfl

/-- An entry of a `try` with a `finally` is met in one of the two. -/
theorem meets_tryFinally (c : Coro σ Ev κ ι ρ ε α) {after : Coro σ Ev κ ι ρ ε Unit}
    {x : Entry Ev κ ι ρ π} {l' : List (Item Ev κ ι ρ π δ)} :
    K.Meets S s t (c.tryFinally after) l x l' ↔ K.Meets S s t c l x l' ∨
      ∃ r m, K.Ran S s t c l r m ∧ K.Meets S s t after m x l' := by
  rw [Meets, leads_tryFinally, leads_iff]
  constructor
  · rintro (⟨r, m, h, hq⟩ | ⟨_, _, h, rfl, rfl⟩)
    · refine .inr ⟨r, m, h, leads_mono (fun q _ hq => ?_) (fun _ _ => id) after hq⟩
      cases q with
      | ok u => exact hq
      | error e => exact hq
    · exact .inl h
  · rintro (h | ⟨r, m, h, hq⟩)
    · exact .inr ⟨x, l', h, rfl, rfl⟩
    · exact .inl ⟨r, m, h, leads_mono (fun _ _ => False.elim) (fun _ _ => id) after hq⟩

/-- **Logs only grow**, and the task is neither started again nor lost meanwhile. -/
theorem leads_during (c : Coro σ Ev κ ι ρ ε α) {Q : Except ε α → List (Item Ev κ ι ρ π δ) → Prop}
    (h : K.leads S s t c Q R l) :
    K.leads S s t c (fun r m => (∃ m', (∀ x ∈ m', Item.During t x) ∧ m = m' ++ l) ∧ Q r m)
      (fun x m => (∃ m', (∀ x ∈ m', Item.During t x) ∧ m = m' ++ l) ∧ R x m) l := by
  suffices hl : ∀ {l₁}, (∃ m', (∀ x ∈ m', Item.During t x) ∧ l₁ = m' ++ l) → K.leads S s t c Q R l₁ →
      K.leads S s t c (fun r m => (∃ m', (∀ x ∈ m', Item.During t x) ∧ m = m' ++ l) ∧ Q r m)
        (fun x m => (∃ m', (∀ x ∈ m', Item.During t x) ∧ m = m' ++ l) ∧ R x m) l₁ from
    hl ⟨[], fun _ hx => (nomatch hx), rfl⟩ h
  clear h
  have cons : ∀ {x : Item Ev κ ι ρ π δ} {m}, Item.During t x →
      (∃ m', (∀ y ∈ m', Item.During t y) ∧ m = m' ++ l) →
      ∃ m', (∀ y ∈ m', Item.During t y) ∧ x :: m = m' ++ l := by
    rintro x _ hx ⟨m', hm', rfl⟩
    exact ⟨x :: m', List.forall_mem_cons.2 ⟨hx, hm'⟩, rfl⟩
  have append : ∀ {m₁ m : List (Item Ev κ ι ρ π δ)}, (∀ x ∈ m₁, Item.Aside t x) →
      (∃ m', (∀ y ∈ m', Item.During t y) ∧ m = m' ++ l) →
      ∃ m', (∀ y ∈ m', Item.During t y) ∧ m₁ ++ m = m' ++ l := by
    rintro m₁ _ h₁ ⟨m', hm', rfl⟩
    refine ⟨m₁ ++ m', fun x hx => ?_, (List.append_assoc ..).symm⟩
    exact (List.mem_append.1 hx).elim (fun hx => (h₁ x hx).during) (hm' x)
  intro l₁ hl h
  induction c generalizing l₁ with
  | ret a => exact ⟨hl, h⟩
  | raise e => exact ⟨hl, h⟩
  | read k ih => exact ih _ hl h
  | emit e k ih => exact h.imp (fun h => ⟨hl, h⟩) (ih (cons trivial hl))
  | toss q k ih => exact h.imp fun b => ih b (cons trivial hl)
  | await i k ih =>
    refine h.imp (fun h => ⟨hl, h⟩) fun ⟨m, a, hm, hg, hleg, h⟩ => ⟨m, a, hm, hg, hleg, ?_⟩
    exact ih a (cons trivial (append hm (cons trivial hl))) h

/-- **What the contract says of a coroutine holds along its courses.**  `J` is a property of
the control points that no entry spoils. -/
theorem leads_wp {J : Pc → Prop} (hJ : ∀ pc x, J pc → J (K.next pc x))
    (c : Coro σ Ev κ ι ρ ε α) {Q' : α → Pc → σ → Prop} {E : ε → Pc → σ → Prop}
    {Q : Except ε α → List (Item Ev κ ι ρ π δ) → Prop} {pc : Pc}
    {l : List (Item Ev κ ι ρ π δ)} (w : K.wp S t c Q' E pc (replay S s l)) (j : J pc)
    (h : K.leads S s t c Q R l) : K.leads S s t c (fun r m => (∃ pc, J pc ∧ match r with
        | .ok a => Q' a pc (replay S s m)
        | .error e => E e pc (replay S s m)) ∧ Q r m)
      (fun x m => (∃ pc, J pc ∧ K.ok t pc (replay S s m) x) ∧ R x m) l := by
  induction c generalizing pc l with
  | ret a => exact ⟨⟨pc, j, w⟩, h⟩
  | raise e => exact ⟨⟨pc, j, w⟩, h⟩
  | read k ih => exact ih _ w j h
  | emit e k ih => exact h.imp (fun h => ⟨⟨pc, j, w.1⟩, h⟩) (ih w.2 (hJ _ _ j))
  | toss q k ih => exact h.imp fun b => ih b (w b) (hJ _ _ j)
  | await i k ih =>
    refine h.imp (fun h => ⟨⟨pc, j, w.1⟩, h⟩) fun ⟨m, a, hm, hg, hl, h⟩ => ⟨m, a, hm, hg, hl, ?_⟩
    exact ih a (w.2 _ a hg hl) (hJ _ _ (hJ _ _ j)) h

end Rules

/-! ### Runs -/

section Runs

variable {S : System σ Ev κ ι ρ π δ} {K : Contract σ Ev κ ι ρ π Pc} {init : σ → Prop}
  {C : σ → List (Item Ev κ ι ρ π δ) → Item Ev κ ι ρ π δ → Prop}

/-- The rest `d` of the task `t` at the log `l` is what its body led to. -/
def FromBody (S : System σ Ev κ ι ρ π δ) (K : Contract σ Ev κ ι ρ π Pc) (s : σ) (t : ℕ)
    (d : Coro σ Ev κ ι ρ Empty Unit) (l : List (Item Ev κ ι ρ π δ)) : Prop :=
  ∃ p l₀, started t l = some (p, l₀) ∧ ∀ Q R, K.leads S s t d Q R l →
    K.leads S s t (S.body t p) Q R l₀

/-- The log of the configuration tells its state, every item of it was in order for `C`, and
the tasks have come from their bodies. -/
structure Recorded (S : System σ Ev κ ι ρ π δ) (K : Contract σ Ev κ ι ρ π Pc)
    (C : σ → List (Item Ev κ ι ρ π δ) → Item Ev κ ι ρ π δ → Prop) (s : σ)
    (c : Machine σ Ev κ ι ρ π δ) : Prop where
  state : c.state = replay S s c.log
  items {x l} (h : x :: l <:+ c.log) : C (replay S s l) l x
  running {t d} (h : c.running = some (t, d)) : FromBody S K s t d c.log
  pool {t i k} (h : c.pool t = some ⟨i, k⟩) : ∃ m l, (∀ x ∈ m, Item.Aside t x) ∧
    c.log = m ++ .task t (.park i) :: l ∧ K.grows (replay S s l) c.state ∧
    FromBody S K s t (.await i k) l

/-- The items of the log before, and the one that was added. -/
theorem Recorded.cons {s : σ} {c : Machine σ Ev κ ι ρ π δ} (h : Recorded S K C s c)
    {y : Item Ev κ ι ρ π δ} (hy : C c.state c.log y) {x : Item Ev κ ι ρ π δ}
    {l : List (Item Ev κ ι ρ π δ)} (hx : x :: l <:+ y :: c.log) : C (replay S s l) l x := by
  rcases List.suffix_cons_iff.1 hx with hx | hx
  · obtain ⟨rfl, rfl⟩ := List.cons.inj hx
    rwa [← h.state]
  · exact h.items hx

/-- What another task adds to the log leaves a suspended task where it is. -/
theorem Recorded.pool_of_aside (H : K.Holds S) {s : σ} {c : Machine σ Ev κ ι ρ π δ}
    (h : Recorded S K C s c) {t : ℕ} {i : ι} {k : ρ → Coro σ Ev κ ι ρ Empty Unit}
    (hp : c.pool t = some ⟨i, k⟩) (y : Item Ev κ ι ρ π δ) (hy : Item.Aside t y) {s' : σ}
    (hs : K.grows c.state s') : ∃ m l, (∀ x ∈ m, Item.Aside t x) ∧
      y :: c.log = m ++ .task t (.park i) :: l ∧ K.grows (replay S s l) s' ∧
      FromBody S K s t (.await i k) l := by
  obtain ⟨m, l, hm, hlog, hg, hd⟩ := h.pool hp
  refine ⟨y :: m, l, ?_, by rw [hlog]; rfl, H.trans hg hs, hd⟩
  intro x hx
  rcases List.mem_cons.1 hx with rfl | hx
  · exact hy
  · exact hm x hx

/-- **Every run is recorded in its log.** -/
theorem reach_recorded (H : K.Holds S) {c : Machine σ Ev κ ι ρ π δ} (r : S.Reach init C c) :
    ∃ s, init s ∧ Recorded S K C s c := by
  induction r with
  | @init s h =>
    refine ⟨s, h, rfl, fun h => ?_, fun h => (nomatch h), fun h => (nomatch h)⟩
    exact absurd (List.suffix_nil.1 h) (List.cons_ne_nil _ _)
  | @step c a c' r st ok ih =>
    obtain ⟨s, hs, h⟩ := ih
    obtain ⟨P, -, f⟩ := reach_traj H r
    refine ⟨s, hs, ?_⟩
    cases st with
    | @start s₁ s₂ pool log t p fresh may =>
      have hr : replay S s log = s₁ := h.state.symm
      refine ⟨?_, h.cons (ok _ rfl), fun {u d} hu => ?_, fun {u i k} hu => ?_⟩
      · show s₂ = (S.begin (replay S s log) t p).getD _
        rw [hr, may]
        rfl
      · obtain ⟨rfl, rfl⟩ := Prod.mk.inj (Option.some.inj hu)
        exact ⟨p, _, if_pos rfl, fun _ _ h => h⟩
      · refine h.pool_of_aside H hu _ ?_ (H.begin may)
        rintro rfl
        cases fresh.symm.trans hu
    | @wake s₁ pool log t i k a waits may =>
      obtain ⟨m, l, hm, hlog, hg, p, l₀, hp, hd⟩ := h.pool waits
      have hlog : log = m ++ .task t (.park i) :: l := hlog
      have hs₁ : s₁ = replay S s log := h.state
      subst hlog
      subst hs₁
      refine ⟨rfl, h.cons (ok _ rfl), fun {u d} hu => ?_, fun {u j k'} hu => ?_⟩
      · obtain ⟨rfl, rfl⟩ := Prod.mk.inj (Option.some.inj hu)
        refine ⟨p, l₀, (started_aside hm _).trans hp, fun Q R h => hd Q R ?_⟩
        exact .inr ⟨m, a, hm, hg, may, h⟩
      · have hut : u ≠ t := by
          rintro rfl
          cases (Function.update_self u none pool).symm.trans hu
        have hu : pool u = some ⟨j, k'⟩ := (Function.update_of_ne hut ..).symm.trans hu
        exact h.pool_of_aside H hu (.task t _) (Ne.symm hut) (H.refl _)
    | @read s₁ pool log t k =>
      have hs₁ : s₁ = replay S s log := h.state
      subst hs₁
      refine ⟨rfl, h.items, fun {u d} hu => ?_, h.pool⟩
      obtain ⟨rfl, rfl⟩ := Prod.mk.inj (Option.some.inj hu)
      obtain ⟨p, l₀, hp, hd⟩ := h.running rfl
      exact ⟨p, l₀, hp, fun Q R h => hd Q R h⟩
    | @emit s₁ pool log t e k =>
      have hs₁ : s₁ = replay S s log := h.state
      subst hs₁
      obtain ⟨hpool, pc, -, hok, -⟩ := f.running rfl
      refine ⟨rfl, h.cons (ok _ rfl), fun {u d} hu => ?_, fun {u j k'} hu => ?_⟩
      · obtain ⟨rfl, rfl⟩ := Prod.mk.inj (Option.some.inj hu)
        obtain ⟨p, l₀, hp, hd⟩ := h.running rfl
        exact ⟨p, l₀, hp, fun Q R h => hd Q R (.inr h)⟩
      · refine h.pool_of_aside H hu _ ?_ (H.emit hok)
        rintro rfl
        cases hpool.symm.trans hu
    | @toss s₁ pool log t q k b =>
      have hs₁ : s₁ = replay S s log := h.state
      subst hs₁
      obtain ⟨hpool, -⟩ := f.running rfl
      refine ⟨rfl, h.cons (ok _ rfl), fun {u d} hu => ?_, fun {u j k'} hu => ?_⟩
      · obtain ⟨rfl, rfl⟩ := Prod.mk.inj (Option.some.inj hu)
        obtain ⟨p, l₀, hp, hd⟩ := h.running rfl
        exact ⟨p, l₀, hp, fun Q R h => hd Q R ⟨b, h⟩⟩
      · refine h.pool_of_aside H hu _ ?_ (H.refl _)
        rintro rfl
        cases hpool.symm.trans hu
    | @park s₁ pool log t i k =>
      have hs₁ : s₁ = replay S s log := h.state
      subst hs₁
      refine ⟨rfl, h.cons (ok _ rfl), fun hu => (nomatch hu), fun {u j k'} hu => ?_⟩
      rcases eq_or_ne u t with rfl | hut
      · have hu := (Function.update_self u (some ⟨i, k⟩) pool).symm.trans hu
        obtain ⟨rfl, rfl⟩ := Parked.mk.inj (Option.some.inj hu)
        exact ⟨[], log, fun _ h => (nomatch h), rfl, H.refl _, h.running rfl⟩
      · have hu : pool u = some ⟨j, k'⟩ := (Function.update_of_ne hut ..).symm.trans hu
        exact h.pool_of_aside H hu (.task t _) (Ne.symm hut) (H.refl _)
    | @stop s₁ pool log t u =>
      have hs₁ : s₁ = replay S s log := h.state
      subst hs₁
      obtain ⟨hpool, -⟩ := f.running rfl
      refine ⟨rfl, h.cons (ok _ rfl), fun hu => (nomatch hu), fun {u j k'} hu => ?_⟩
      refine h.pool_of_aside H hu _ ?_ (H.refl _)
      rintro rfl
      cases hpool.symm.trans hu
    | @drift s₁ pool log d =>
      have hs₁ : s₁ = replay S s log := h.state
      subst hs₁
      refine ⟨rfl, h.cons (ok _ rfl), fun hu => (nomatch hu), fun {u j k'} hu => ?_⟩
      exact h.pool_of_aside H hu (.drift d) trivial (H.drift d _)
    | @crash s₁ pool run log =>
      have hs₁ : s₁ = replay S s log := h.state
      subst hs₁
      exact ⟨rfl, h.cons (ok _ rfl), fun hu => (nomatch hu), fun hu => (nomatch hu)⟩

/-- A task that ends has run from its start to its end. -/
theorem ran_of_stop (H : K.Holds S) {c c' : Machine σ Ev κ ι ρ π δ} {t : ℕ}
    (r : S.Reach init C c) (st : S.Step c (some (.task t .stop)) c') :
    ∃ s, init s ∧ Recorded S K C s c ∧ ∃ p l, started t c.log = some (p, l) ∧
      K.Ran S s t (S.body t p) l (.ok ()) c.log := by
  obtain ⟨s, hs, h⟩ := reach_recorded H r
  cases st with
  | stop =>
    obtain ⟨p, l, hp, hd⟩ := h.running rfl
    exact ⟨s, hs, h, p, l, hp, hd _ _ ⟨rfl, rfl⟩⟩

/-- A task that makes an event has come to it from its start. -/
theorem meets_of_emit (H : K.Holds S) {c c' : Machine σ Ev κ ι ρ π δ} {t : ℕ} {e : Ev}
    (r : S.Reach init C c) (st : S.Step c (some (.task t (.emit e))) c') :
    ∃ s, init s ∧ Recorded S K C s c ∧ ∃ p l, started t c.log = some (p, l) ∧
      K.Meets S s t (S.body t p) l (.emit e) c.log := by
  obtain ⟨s, hs, h⟩ := reach_recorded H r
  cases st with
  | emit =>
    obtain ⟨p, l, hp, hd⟩ := h.running rfl
    exact ⟨s, hs, h, p, l, hp, hd _ _ (.inl ⟨rfl, rfl⟩)⟩

/-- A task that awaits has come to the await from its start. -/
theorem meets_of_park (H : K.Holds S) {c c' : Machine σ Ev κ ι ρ π δ} {t : ℕ} {i : ι}
    (r : S.Reach init C c) (st : S.Step c (some (.task t (.park i))) c') :
    ∃ s, init s ∧ Recorded S K C s c ∧ ∃ p l, started t c.log = some (p, l) ∧
      K.Meets S s t (S.body t p) l (.park i) c.log := by
  obtain ⟨s, hs, h⟩ := reach_recorded H r
  cases st with
  | park =>
    obtain ⟨p, l, hp, hd⟩ := h.running rfl
    exact ⟨s, hs, h, p, l, hp, hd _ _ (.inl ⟨rfl, rfl⟩)⟩

end Runs
end Contract
end MorpheusGateway
