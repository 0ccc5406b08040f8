/-
# Courses of the gateway's programs

What a task has done is read off its course: `Ensures.ran` gives the whole course of a task
that ends, `Ensures.met` the course up to an event.  The rules below follow the store
primitives, a failed operation of which leaves a toss in the log and raises.
-/

import MorpheusGateway.Coroutine.Course
import MorpheusGateway.Protocol.Runs

namespace MorpheusGateway

open Contract

variable {cfg : Config} {C : ItemRule}

/-! ### Runs -/

/-- **A task that ends has run through its program.** -/
theorem Ensures.ran {p : World → List LogItem → ℕ → Prop}
    (h : ∀ {s₀ t q l₀ l}, Installed s₀ →
      (∀ {x m}, x :: m <:+ .task t .stop :: l → C (replay (gateway cfg) s₀ m) m x) →
      started t l = some (q, l₀) →
      (protocol cfg).Ran (gateway cfg) s₀ t (body cfg t q) l₀ (.ok ()) l →
      p (replay (gateway cfg) s₀ l) l t) : Ensures cfg C (OnStop p) := by
  intro m a m' r st hC x hx
  obtain rfl : a = some x := hx
  match x with
  | .task t .stop =>
    obtain ⟨s₀, hs, hrec, q, l₀, hq, hran⟩ := ran_of_stop (protocol_holds cfg) r st
    show p m.state m.log t
    rw [hrec.state]
    exact h hs (hrec.cons (hC _ rfl)) hq hran
  | .task t (.start _) | .task t (.wake ..) | .task t (.toss ..) | .task t (.park _)
  | .task t (.emit _) | .drift _ | .crash => exact trivial

/-- **A task that makes an event has come to it from its start.** -/
theorem Ensures.met {p : World → List LogItem → ℕ → Event → Prop}
    (h : ∀ {s₀ t e q l₀ l}, Installed s₀ →
      (∀ {x m}, x :: m <:+ .task t (.emit e) :: l → C (replay (gateway cfg) s₀ m) m x) →
      started t l = some (q, l₀) →
      (protocol cfg).Meets (gateway cfg) s₀ t (body cfg t q) l₀ (.emit e) l →
      p (replay (gateway cfg) s₀ l) l t e) : Ensures cfg C (OnEvent p) := by
  intro m a m' r st hC x hx
  obtain rfl : a = some x := hx
  match x with
  | .task t (.emit e) =>
    obtain ⟨s₀, hs, hrec, q, l₀, hq, hmet⟩ := meets_of_emit (protocol_holds cfg) r st
    show p m.state m.log t e
    rw [hrec.state]
    exact h hs (hrec.cons (hC _ rfl)) hq hmet
  | .task t (.start _) | .task t (.wake ..) | .task t (.toss ..) | .task t (.park _)
  | .task t .stop | .drift _ | .crash => exact trivial

/-- **A task that awaits has come to it from its start.** -/
theorem Ensures.metPark {p : World → List LogItem → ℕ → Site → Prop}
    (h : ∀ {s₀ t i q l₀ l}, Installed s₀ →
      (∀ {x m}, x :: m <:+ .task t (.park i) :: l → C (replay (gateway cfg) s₀ m) m x) →
      started t l = some (q, l₀) →
      (protocol cfg).Meets (gateway cfg) s₀ t (body cfg t q) l₀ (.park i) l →
      p (replay (gateway cfg) s₀ l) l t i) : Ensures cfg C (OnPark p) := by
  intro m a m' r st hC x hx
  obtain rfl : a = some x := hx
  match x with
  | .task t (.park i) =>
    obtain ⟨s₀, hs, hrec, q, l₀, hq, hmet⟩ := meets_of_park (protocol_holds cfg) r st
    show p m.state m.log t i
    rw [hrec.state]
    exact h hs (hrec.cons (hC _ rfl)) hq hmet
  | .task t (.start _) | .task t (.wake ..) | .task t (.toss ..) | .task t (.emit _)
  | .task t .stop | .drift _ | .crash => exact trivial

/-- What is ensured may be used to ensure more. -/
theorem Ensures.knowing {Good Good' : ItemRule} (h : Ensures cfg C Good)
    (h' : Ensures cfg (fun s l x => C s l x ∧ Good s l x) Good') : Ensures cfg C Good' := by
  intro m a m' r st hC x hx
  have known : Runs cfg (fun s l x => C s l x ∧ Good s l x) m := by
    clear st hC hx
    induction r with
    | init hs => exact .init hs
    | step r st ok ih => exact .step ih st fun x hx => ⟨ok x hx, h r st ok x hx⟩
  exact h' known st (fun x hx => ⟨hC x hx, h r st hC x hx⟩) x hx

/-- What is ensured of the items holds of what follows from it. -/
theorem Ensures.imp {Good Good' : ItemRule} (h : Ensures cfg C Good)
    (hg : ∀ {s l x}, Good s l x → Good' s l x) : Ensures cfg C Good' :=
  fun _ _ _ r st hC x hx => hg (h r st hC x hx)

/-! ### The store primitives -/

/-- The courses of the gateway's coroutines, as task `t` of a run that began in `s`. -/
abbrev Leads (cfg : Config) (s : World) (t : ℕ) {ε α : Type} (c : OpE ε α)
    (Q : Except ε α → List LogItem → Prop) (R : LogEntry → List LogItem → Prop)
    (l : List LogItem) : Prop :=
  (protocol cfg).leads (gateway cfg) s t c Q R l

/-- From `l` on, the task `t` ran `c` to the outcome `r`, at the log `l'`. -/
abbrev RanTo (cfg : Config) (s : World) (t : ℕ) {ε α : Type} (c : OpE ε α) (l : List LogItem)
    (r : Except ε α) (l' : List LogItem) : Prop :=
  (protocol cfg).Ran (gateway cfg) s t c l r l'

section Primitives

variable {s : World} {t : ℕ} {l : List LogItem} {R : LogEntry → List LogItem → Prop}

/-- A read of the store fails or is answered. -/
@[simp] theorem leads_fetch {α : Type} (f : World → α) (q : StoreCall)
    {Q : Except Exc α → List LogItem → Prop} :
    Leads cfg s t (fetch f q) Q R l ↔ Q (.error .storage) (.task t (.toss q true) :: l) ∨
      Q (.ok (f (replay (gateway cfg) s l))) (.task t (.toss q false) :: l) := by
  simp [Leads, fetch, Bool.exists_bool, or_comm, replay]

/-- A write of the store fails, or its event is met and made. -/
@[simp] theorem leads_store (e : Event) (q : StoreCall) {Q : Except Exc Unit → List LogItem → Prop} :
    Leads cfg s t (store e q) Q R l ↔ Q (.error .storage) (.task t (.toss q true) :: l) ∨
      R (.emit e) (.task t (.toss q false) :: l) ∨
      Q (.ok ()) (.task t (.emit e) :: .task t (.toss q false) :: l) := by
  simp [Leads, store, Bool.exists_bool, or_comm, or_assoc]

/-- A write that is not modelled fails or is made. -/
@[simp] theorem leads_storeOther (q : StoreCall) {Q : Except Exc Unit → List LogItem → Prop} :
    Leads cfg s t (storeOther q) Q R l ↔ Q (.error .storage) (.task t (.toss q true) :: l) ∨
      Q (.ok ()) (.task t (.toss q false) :: l) := by
  simp [Leads, storeOther, Bool.exists_bool, or_comm]

/-- A diagnostic is made, or its failure is remembered. -/
@[simp] theorem leads_event {Q : Except Exc Unit → List LogItem → Prop} :
    Leads cfg s t event Q R l ↔ R (.emit (.storeError true)) (.task t (.toss .write true) :: l) ∨
      Q (.ok ()) (.task t (.emit (.storeError true)) :: .task t (.toss .write true) :: l) ∨
      Q (.ok ()) (.task t (.toss .write false) :: l) := by
  simp [Leads, event, Bool.exists_bool, or_comm, or_left_comm]

/-- A look at the clock. -/
@[simp] theorem leads_now {Q : Except Exc ℚ → List LogItem → Prop} :
    Leads cfg s t now Q R l ↔ Q (.ok (replay (gateway cfg) s l).now) l := Iff.rfl

/-- A look at the memory. -/
@[simp] theorem leads_memory {α : Type} (f : Memory → α) {Q : Except Exc α → List LogItem → Prop} :
    Leads cfg s t (memory f) Q R l ↔ Q (.ok (f (replay (gateway cfg) s l).memory)) l := Iff.rfl

end Primitives

end MorpheusGateway
