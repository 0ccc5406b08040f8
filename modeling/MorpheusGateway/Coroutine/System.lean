/-
# Systems of coroutines

A `System` says what each task's body is and what its events do to the shared
state.  A `Machine` is the state, the suspended tasks, the one that is running
and the log so far; a `Step` is the smallest thing that can happen: a task
starts, one event, one toss, a suspension, an answer, the end of a task, a
drift of the environment (time passing), or a crash.  A crash may come between
any two of them.  It forgets every task and keeps of the state what `reset`
keeps.

`Reach S init C` are the configurations of the runs whose every item satisfies
`C` in the state and log it meets.  `C := fun _ _ _ => True` is every run.

`exec` runs whole pieces, from an answer to the next await, and checks a
Boolean condition at every item.  A script it accepts is a run (`reach_script`).
-/

import MorpheusGateway.Coroutine.Basic

namespace MorpheusGateway

/-- What a set of coroutines needs to run: `body t p` is the task numbered `t`
of the program `p`, `apply t e` what the event `e` of task `t` does, `legal`
which answers an await point may get now, `begin` whether a task may start now
and what that changes, `drift` what the environment does by itself, and `reset`
what a crash leaves. -/
structure System (σ Ev κ ι ρ π δ : Type) where
  body : ℕ → π → Coro σ Ev κ ι ρ Empty Unit
  apply : ℕ → Ev → σ → σ
  legal : σ → ℕ → ι → ρ → Bool
  begin : σ → ℕ → π → Option σ
  drift : δ → σ → σ
  reset : σ → σ

/-- One thing a task does. -/
inductive Entry (Ev κ ι ρ π : Type) : Type where
  | start (p : π)
  | wake (i : ι) (r : ρ)
  | emit (e : Ev)
  | toss (q : κ) (b : Bool)
  | park (i : ι)
  | stop

/-- One line of the log. -/
inductive Item (Ev κ ι ρ π δ : Type) : Type where
  | task (t : ℕ) (a : Entry Ev κ ι ρ π)
  | drift (d : δ)
  | crash

/-- A suspended task: where it waits and how it goes on. -/
structure Parked (σ Ev κ ι ρ : Type) where
  site : ι
  resume : ρ → Coro σ Ev κ ι ρ Empty Unit

/-- The state, the suspended tasks, the running one and the log, newest first. -/
structure Machine (σ Ev κ ι ρ π δ : Type) where
  state : σ
  pool : ℕ → Option (Parked σ Ev κ ι ρ)
  running : Option (ℕ × Coro σ Ev κ ι ρ Empty Unit)
  log : List (Item Ev κ ι ρ π δ)

namespace System

variable {σ Ev κ ι ρ π δ : Type}

/-- The configuration a state starts in. -/
def launch (s : σ) : Machine σ Ev κ ι ρ π δ := ⟨s, fun _ => none, none, []⟩

/-- The smallest things that can happen.  A read of the state is silent. -/
inductive Step (S : System σ Ev κ ι ρ π δ) :
    Machine σ Ev κ ι ρ π δ → Option (Item Ev κ ι ρ π δ) → Machine σ Ev κ ι ρ π δ → Prop
  | start {s s' pool log t p} (fresh : pool t = none) (may : S.begin s t p = some s') :
      Step S ⟨s, pool, none, log⟩ (some (.task t (.start p)))
        ⟨s', pool, some (t, S.body t p), .task t (.start p) :: log⟩
  | wake {s pool log t i k r} (waits : pool t = some ⟨i, k⟩) (may : S.legal s t i r = true) :
      Step S ⟨s, pool, none, log⟩ (some (.task t (.wake i r)))
        ⟨s, Function.update pool t none, some (t, k r), .task t (.wake i r) :: log⟩
  | read {s pool log t k} :
      Step S ⟨s, pool, some (t, .read k), log⟩ none ⟨s, pool, some (t, k s), log⟩
  | emit {s pool log t e k} :
      Step S ⟨s, pool, some (t, .emit e k), log⟩ (some (.task t (.emit e)))
        ⟨S.apply t e s, pool, some (t, k), .task t (.emit e) :: log⟩
  | toss {s pool log t q k} (b : Bool) :
      Step S ⟨s, pool, some (t, .toss q k), log⟩ (some (.task t (.toss q b)))
        ⟨s, pool, some (t, k b), .task t (.toss q b) :: log⟩
  | park {s pool log t i k} :
      Step S ⟨s, pool, some (t, .await i k), log⟩ (some (.task t (.park i)))
        ⟨s, Function.update pool t (some ⟨i, k⟩), none, .task t (.park i) :: log⟩
  | stop {s pool log t u} :
      Step S ⟨s, pool, some (t, .ret u), log⟩ (some (.task t .stop))
        ⟨s, pool, none, .task t .stop :: log⟩
  | drift {s pool log} (d : δ) :
      Step S ⟨s, pool, none, log⟩ (some (.drift d)) ⟨S.drift d s, pool, none, .drift d :: log⟩
  | crash {s pool running log} :
      Step S ⟨s, pool, running, log⟩ (some .crash)
        ⟨S.reset s, fun _ => none, none, .crash :: log⟩

/-- The configurations of the runs that start in `init` and whose every item
satisfies `C` in the state and log before it. -/
inductive Reach (S : System σ Ev κ ι ρ π δ) (init : σ → Prop)
    (C : σ → List (Item Ev κ ι ρ π δ) → Item Ev κ ι ρ π δ → Prop) :
    Machine σ Ev κ ι ρ π δ → Prop
  | init {s} (h : init s) : Reach S init C (launch s)
  | step {c a c'} (reach : Reach S init C c) (step : S.Step c a c')
      (ok : ∀ x ∈ a, C c.state c.log x) : Reach S init C c'

variable {S : System σ Ev κ ι ρ π δ} {init : σ → Prop}
  {C C' : σ → List (Item Ev κ ι ρ π δ) → Item Ev κ ι ρ π δ → Prop}

/-- A weaker condition allows more runs. -/
theorem Reach.mono (h : ∀ s l x, C s l x → C' s l x) {c : Machine σ Ev κ ι ρ π δ}
    (r : S.Reach init C c) : S.Reach init C' c := by
  induction r with
  | init h => exact .init h
  | step _ st ok ih => exact .step ih st fun x hx => h _ _ x (ok x hx)

/-! ### Scripts -/

/-- One move of a script: everything a task does from here to its next await is
one move, with the outcomes of its tosses (`false` once the list is used up). -/
inductive Move (ρ π δ : Type) : Type where
  | start (t : ℕ) (p : π) (tosses : List Bool)
  | wake (t : ℕ) (r : ρ) (tosses : List Bool)
  | drift (d : δ)
  | crash

/-- Run the task `t` to its next await or its end, checking `chk` at every item. -/
def drive (S : System σ Ev κ ι ρ π δ)
    (chk : σ → List (Item Ev κ ι ρ π δ) → Item Ev κ ι ρ π δ → Bool)
    (pool : ℕ → Option (Parked σ Ev κ ι ρ)) (t : ℕ) :
    Coro σ Ev κ ι ρ Empty Unit → List Bool → σ → List (Item Ev κ ι ρ π δ) →
      Option (Machine σ Ev κ ι ρ π δ)
  | .ret _, _, s, l =>
      if chk s l (.task t .stop) then some ⟨s, pool, none, .task t .stop :: l⟩ else none
  | .raise e, _, _, _ => nomatch e
  | .read k, bs, s, l => drive S chk pool t (k s) bs s l
  | .emit e k, bs, s, l =>
      if chk s l (.task t (.emit e)) then
        drive S chk pool t k bs (S.apply t e s) (.task t (.emit e) :: l)
      else none
  | .toss q k, bs, s, l =>
      if chk s l (.task t (.toss q (bs.headD false))) then
        drive S chk pool t (k (bs.headD false)) bs.tail s (.task t (.toss q (bs.headD false)) :: l)
      else none
  | .await i k, _, s, l =>
      if chk s l (.task t (.park i)) then
        some ⟨s, Function.update pool t (some ⟨i, k⟩), none, .task t (.park i) :: l⟩
      else none

/-- Make one move of a script. -/
def exec (S : System σ Ev κ ι ρ π δ)
    (chk : σ → List (Item Ev κ ι ρ π δ) → Item Ev κ ι ρ π δ → Bool)
    (c : Machine σ Ev κ ι ρ π δ) : Move ρ π δ → Option (Machine σ Ev κ ι ρ π δ)
  | .start t p bs =>
      match c.running, c.pool t, S.begin c.state t p with
      | none, none, some s =>
          if chk c.state c.log (.task t (.start p)) then
            drive S chk c.pool t (S.body t p) bs s (.task t (.start p) :: c.log)
          else none
      | _, _, _ => none
  | .wake t r bs =>
      match c.running, c.pool t with
      | none, some ⟨i, k⟩ =>
          if S.legal c.state t i r && chk c.state c.log (.task t (.wake i r)) then
            drive S chk (Function.update c.pool t none) t (k r) bs c.state
              (.task t (.wake i r) :: c.log)
          else none
      | _, _ => none
  | .drift d =>
      match c.running with
      | none =>
          if chk c.state c.log (.drift d) then
            some ⟨S.drift d c.state, c.pool, none, .drift d :: c.log⟩
          else none
      | some _ => none
  | .crash =>
      if chk c.state c.log .crash then
        some ⟨S.reset c.state, fun _ => none, none, .crash :: c.log⟩
      else none

/-- Run a script. -/
def script (S : System σ Ev κ ι ρ π δ)
    (chk : σ → List (Item Ev κ ι ρ π δ) → Item Ev κ ι ρ π δ → Bool) :
    List (Move ρ π δ) → Machine σ Ev κ ι ρ π δ → Option (Machine σ Ev κ ι ρ π δ)
  | [], c => some c
  | m :: ms, c => (S.exec chk c m).bind (script S chk ms)

variable {chk : σ → List (Item Ev κ ι ρ π δ) → Item Ev κ ι ρ π δ → Bool}

/-- A piece that is accepted is a part of a run. -/
theorem reach_drive (hC : ∀ s l x, chk s l x = true → C s l x)
    {pool : ℕ → Option (Parked σ Ev κ ι ρ)} {t : ℕ} (c : Coro σ Ev κ ι ρ Empty Unit) :
    ∀ {bs s l c'}, S.Reach init C ⟨s, pool, some (t, c), l⟩ →
      S.drive chk pool t c bs s l = some c' → S.Reach init C c' := by
  induction c with
  | ret u =>
    intro bs s l c' r h
    rw [drive, Option.ite_none_right_eq_some] at h
    obtain ⟨hc, h⟩ := h
    obtain rfl := Option.some.inj h
    exact .step r .stop fun x hx => by cases hx; exact hC _ _ _ hc
  | raise e => exact nomatch e
  | read k ih =>
    intro bs s l c' r h
    exact ih s (.step r .read fun x hx => nomatch hx) h
  | emit e k ih =>
    intro bs s l c' r h
    rw [drive, Option.ite_none_right_eq_some] at h
    exact ih (.step r .emit fun x hx => by cases hx; exact hC _ _ _ h.1) h.2
  | toss q k ih =>
    intro bs s l c' r h
    rw [drive, Option.ite_none_right_eq_some] at h
    exact ih _ (.step r (.toss _) fun x hx => by cases hx; exact hC _ _ _ h.1) h.2
  | await i k =>
    intro bs s l c' r h
    rw [drive, Option.ite_none_right_eq_some] at h
    obtain ⟨hc, h⟩ := h
    obtain rfl := Option.some.inj h
    exact .step r .park fun x hx => by cases hx; exact hC _ _ _ hc

/-- A move that is accepted is one. -/
theorem reach_exec (hC : ∀ s l x, chk s l x = true → C s l x) {c c' : Machine σ Ev κ ι ρ π δ}
    {m : Move ρ π δ} (r : S.Reach init C c) (h : S.exec chk c m = some c') :
    S.Reach init C c' := by
  obtain ⟨s, pool, running, log⟩ := c
  cases m with
  | start t p bs =>
    simp only [exec] at h
    split at h
    · rename_i hp hb
      rw [Option.ite_none_right_eq_some] at h
      exact reach_drive hC _ (.step r (.start hp hb) fun x hx => by
        cases hx; exact hC _ _ _ h.1) h.2
    · cases h
  | wake t w bs =>
    simp only [exec] at h
    split at h
    · rename_i hp
      rw [Option.ite_none_right_eq_some, Bool.and_eq_true] at h
      exact reach_drive hC _ (.step r (.wake hp h.1.1) fun x hx => by
        cases hx; exact hC _ _ _ h.1.2) h.2
    · cases h
  | drift d =>
    simp only [exec] at h
    split at h
    · rw [Option.ite_none_right_eq_some] at h
      obtain ⟨hc, h⟩ := h
      obtain rfl := Option.some.inj h
      exact .step r (.drift d) fun x hx => by cases hx; exact hC _ _ _ hc
    · cases h
  | crash =>
    rw [exec, Option.ite_none_right_eq_some] at h
    obtain ⟨hc, h⟩ := h
    obtain rfl := Option.some.inj h
    exact .step r .crash fun x hx => by cases hx; exact hC _ _ _ hc

/-- **A script that is accepted is a run.** -/
theorem reach_script (hC : ∀ s l x, chk s l x = true → C s l x) {ms : List (Move ρ π δ)} :
    ∀ {c c' : Machine σ Ev κ ι ρ π δ}, S.Reach init C c → S.script chk ms c = some c' →
      S.Reach init C c' := by
  induction ms with
  | nil =>
    intro c c' r h
    obtain rfl := Option.some.inj h
    exact r
  | cons m ms ih =>
    intro c c' r h
    obtain ⟨d, hd, hs⟩ := Option.bind_eq_some_iff.1 h
    exact ih (reach_exec hC r hd) hs

/-! ### What a log shows -/

/-- Some item of the log is of the kind `hit`, given the log before it. -/
def logged (hit : List (Item Ev κ ι ρ π δ) → Item Ev κ ι ρ π δ → Bool) :
    List (Item Ev κ ι ρ π δ) → Bool
  | [] => false
  | x :: l => hit l x || logged hit l

/-- **What is in the log of a run was made by one of its steps**, which met the condition. -/
theorem Reach.step_of_logged {hit : List (Item Ev κ ι ρ π δ) → Item Ev κ ι ρ π δ → Bool}
    {c : Machine σ Ev κ ι ρ π δ} (r : S.Reach init C c) (h : logged hit c.log = true) :
    ∃ d x d', S.Reach init C d ∧ S.Step d (some x) d' ∧ C d.state d.log x ∧ hit d.log x = true := by
  induction r with
  | init _ => exact nomatch h
  | @step c a c' r st ok ih =>
    cases a with
    | none =>
      cases st
      exact ih h
    | some x =>
      have hlog : c'.log = x :: c.log := by cases st <;> rfl
      rw [hlog, logged, Bool.or_eq_true] at h
      rcases h with here | before
      · exact ⟨c, x, c', r, st, ok x rfl, here⟩
      · exact ih before

/-! ### Reaching an item with a script -/

section Refute

variable {chk good : σ → List (Item Ev κ ι ρ π δ) → Item Ev κ ι ρ π δ → Bool}

/-- Every item of every run passes the check. -/
def Passes (S : System σ Ev κ ι ρ π δ) (init : σ → Prop)
    (C : σ → List (Item Ev κ ι ρ π δ) → Item Ev κ ι ρ π δ → Prop)
    (good : σ → List (Item Ev κ ι ρ π δ) → Item Ev κ ι ρ π δ → Bool) : Prop :=
  ∀ ⦃c a c'⦄, S.Reach init C c → S.Step c a c' → (∀ x ∈ a, C c.state c.log x) →
    ∀ x ∈ a, good c.state c.log x = true

/-- An item that the step makes passes the check. -/
theorem Passes.item (h : S.Passes init C good) {c c' : Machine σ Ev κ ι ρ π δ}
    {x : Item Ev κ ι ρ π δ} (r : S.Reach init C c) (st : S.Step c (some x) c')
    (hx : C c.state c.log x) : good c.state c.log x = true ∧ S.Reach init C c' := by
  have ok : ∀ y ∈ some x, C c.state c.log y := by
    rintro y ⟨⟩
    exact hx
  exact ⟨h r st ok x rfl, .step r st ok⟩

/-- A piece that is accepted by the check of the condition is accepted by the other. -/
theorem Passes.drive (h : S.Passes init C good) (hC : ∀ s l x, chk s l x = true → C s l x)
    {pool : ℕ → Option (Parked σ Ev κ ι ρ)} {t : ℕ} (c : Coro σ Ev κ ι ρ Empty Unit) :
    ∀ {bs s l d}, S.Reach init C ⟨s, pool, some (t, c), l⟩ →
      S.drive chk pool t c bs s l = some d → S.drive good pool t c bs s l = some d := by
  induction c with
  | ret u =>
    intro bs s l d r hd
    rw [System.drive, Option.ite_none_right_eq_some] at hd
    rw [System.drive, if_pos (h.item r .stop (hC _ _ _ hd.1)).1]
    exact hd.2
  | raise e => exact nomatch e
  | read k ih =>
    intro bs s l d r hd
    exact ih s (.step r .read fun _ hx => nomatch hx) hd
  | emit e k ih =>
    intro bs s l d r hd
    rw [System.drive, Option.ite_none_right_eq_some] at hd
    obtain ⟨pass, next⟩ := h.item r .emit (hC _ _ _ hd.1)
    rw [System.drive, if_pos pass]
    exact ih next hd.2
  | toss q k ih =>
    intro bs s l d r hd
    rw [System.drive, Option.ite_none_right_eq_some] at hd
    obtain ⟨pass, next⟩ := h.item r (.toss _) (hC _ _ _ hd.1)
    rw [System.drive, if_pos pass]
    exact ih _ next hd.2
  | await i k =>
    intro bs s l d r hd
    rw [System.drive, Option.ite_none_right_eq_some] at hd
    rw [System.drive, if_pos (h.item r .park (hC _ _ _ hd.1)).1]
    exact hd.2

/-- A move that is accepted by the check of the condition is accepted by the other. -/
theorem Passes.exec (h : S.Passes init C good) (hC : ∀ s l x, chk s l x = true → C s l x)
    {c d : Machine σ Ev κ ι ρ π δ} (m : Move ρ π δ) (r : S.Reach init C c)
    (hd : S.exec chk c m = some d) : S.exec good c m = some d := by
  obtain ⟨s, pool, running, log⟩ := c
  cases m with
  | start t p bs =>
    simp only [System.exec] at hd ⊢
    split at hd
    · rename_i hp hb
      rw [Option.ite_none_right_eq_some] at hd
      obtain ⟨pass, next⟩ := h.item r (.start hp hb) (hC _ _ _ hd.1)
      rw [if_pos pass]
      exact h.drive hC _ next hd.2
    · cases hd
  | wake t w bs =>
    simp only [System.exec] at hd ⊢
    split at hd
    · rename_i i k hp
      rw [Option.ite_none_right_eq_some, Bool.and_eq_true] at hd
      obtain ⟨pass, next⟩ := h.item r (.wake hp hd.1.1) (hC _ _ _ hd.1.2)
      rw [hd.1.1, pass, if_pos (by rfl)]
      exact h.drive hC _ next hd.2
    · cases hd
  | drift d =>
    simp only [System.exec] at hd ⊢
    split at hd
    · rw [Option.ite_none_right_eq_some] at hd
      rw [if_pos (h.item r (.drift d) (hC _ _ _ hd.1)).1]
      exact hd.2
    · cases hd
  | crash =>
    rw [System.exec, Option.ite_none_right_eq_some] at hd ⊢
    exact ⟨(h.item r .crash (hC _ _ _ hd.1)).1, hd.2⟩

/-- **A run whose next move is possible, but fails the check, reaches an item that fails it.** -/
theorem not_passes (hC : ∀ s l x, chk s l x = true → C s l x) {ms : List (Move ρ π δ)}
    {m : Move ρ π δ} {c : Machine σ Ev κ ι ρ π δ} (r : S.Reach init C c)
    (h : ((S.script chk ms c).any fun d =>
      (S.exec chk d m).isSome && (S.exec good d m).isNone) = true) : ¬S.Passes init C good := by
  intro passes
  obtain ⟨d, hd, hm⟩ := (Option.any_eq_true _ _).1 h
  rw [Bool.and_eq_true] at hm
  obtain ⟨d', hd'⟩ := Option.isSome_iff_exists.1 hm.1
  rw [passes.exec hC m (reach_script hC r hd) hd'] at hm
  cases hm.2

end Refute

end System
end MorpheusGateway
