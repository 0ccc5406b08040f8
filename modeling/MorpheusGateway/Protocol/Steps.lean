/-
# Stepping through the source

The rules of `Coroutine.Contract` for the gateway's primitives: a store read, a
store write, a diagnostic, an await.  `Quiet` is the coarse summary of a coroutine
that holds at its end what it held at its start; `wp_quiet` applies it.
-/

import MorpheusGateway.Protocol.Rules

namespace MorpheusGateway

open Contract

/-- The gateway's coroutine `c` keeps the protocol as task `t`, and ends in `Q` or in `E`. -/
abbrev Wp (cfg : Config) (t : ℕ) {ε α : Type} (c : OpE ε α) (Q : α → Pc → World → Prop)
    (E : ε → Pc → World → Prop) (pc : Pc) (s : World) : Prop :=
  (protocol cfg).wp (gateway cfg) t c Q E pc s

/-! ### Control points -/

namespace Pc

/-- Nothing was drawn or started in this piece. -/
def Clean (pc : Pc) : Prop :=
  pc.uuid = none ∧ pc.opening = none ∧ pc.withdrawal = none ∧ pc.begun = none

/-- A control point that was just moved is clean. -/
theorem clean_move (pc : Pc) (p : Place) : (pc.move p).Clean := ⟨rfl, rfl, rfl, rfl⟩

/-- Only the last of two moves counts. -/
@[simp] theorem move_move (pc : Pc) (p q : Place) : (pc.move p).move q = pc.move q := rfl

/-- A move goes to its place. -/
@[simp] theorem move_place (pc : Pc) (p : Place) : (pc.move p).place = p := rfl

/-- A move keeps the wallet lock. -/
@[simp] theorem move_lock (pc : Pc) (p : Place) : (pc.move p).lock = pc.lock := rfl

/-- A move keeps the lease. -/
@[simp] theorem move_lease (pc : Pc) (p : Place) : (pc.move p).lease = pc.lease := rfl

/-- A move keeps the place in the queue. -/
@[simp] theorem move_waits (pc : Pc) (p : Place) : (pc.move p).waits = pc.waits := rfl

/-- A move keeps the admitted request. -/
@[simp] theorem move_key (pc : Pc) (p : Place) : (pc.move p).key = pc.key := rfl

/-- A move keeps the cleanup that was pledged. -/
@[simp] theorem move_pledge (pc : Pc) (p : Place) : (pc.move p).pledge = pc.pledge := rfl

/-- A move forgets no leak. -/
@[simp] theorem move_leaks (pc : Pc) (p : Place) : (pc.move p).leaks = pc.leaks := rfl

/-- A clean control point is moved nowhere by a move to its own place. -/
theorem Clean.move_self {pc : Pc} (h : pc.Clean) : pc.move pc.place = pc := by
  obtain ⟨hu, ho, hw, hb⟩ := h
  cases pc
  simp_all [move]

/-- An operation that does not fail leaves the control point as it is. -/
@[simp] theorem toss_false (pc : Pc) (q : StoreCall) : pc.toss q false = pc := by simp [toss]

/-- A read that fails leaves no trace. -/
@[simp] theorem toss_read (pc : Pc) (b : Bool) : pc.toss .read b = pc := by simp [toss]

/-- Nor does an ordinary write that fails. -/
@[simp] theorem toss_write (pc : Pc) (b : Bool) : pc.toss .write b = pc := by simp [toss]

end Pc

/-! ### Growth of the state -/

/-- A world has grown out of itself. -/
@[simp] theorem Grows.refl (s : World) : Grows s s := ⟨fun _ h => h, fun _ h => h, fun _ h => h, .inr rfl⟩

/-- Growth adds up. -/
theorem Grows.trans {a b c : World} (h : Grows a b) (h' : Grows b c) : Grows a c where
  written := fun _ hr => h'.written (h.written hr)
  saved := fun _ hp => h'.saved (h.saved hp)
  cleaned := fun _ hr => h'.cleaned (h.cleaned hr)
  policy := by
    rcases h.policy with h1 | h1
    · rcases h'.policy with h2 | h2
      · exact .inl (h1.trans h2)
      · exact .inl (h2 ▸ h1)
    · rw [← h1]
      exact h'.policy

/-- What was once written stays in the record of writes. -/
theorem Grows.mem {s s' : World} (h : Grows s s') {r : Row} (hr : r ∈ s.written) :
    r ∈ s'.written := h.written hr

/-- What an event writes is remembered. -/
theorem written_apply (s : World) (t : ℕ) (e : Event) : s.written ⊆ (s.apply t e).written := by
  intro r hr
  cases e with
  | put w row => exact List.mem_cons_of_mem _ hr
  | _ => exact hr

/-- No event takes back that a policy was saved. -/
theorem saved_apply (s : World) (t : ℕ) (e : Event) : s.store.saved ⊆ (s.apply t e).store.saved := by
  intro p hp
  cases e with
  | policy p' => exact List.mem_cons_of_mem _ hp
  | _ => exact hp

/-- No event takes back that a request was cleaned up. -/
theorem cleaned_apply (s : World) (t : ℕ) (e : Event) :
    s.memory.cleaned ⊆ (s.apply t e).memory.cleaned := by
  cases e with
  | cleaned c => exact Finset.subset_insert _ _
  | _ => exact fun _ h => h

/-- The world grows by every event that is in order. -/
theorem Grows.apply {cfg : Config} {pc : Pc} {s : World} {e : Event} (t : ℕ) (h : EventOk cfg pc s e) :
    Grows s (s.apply t e) where
  written := written_apply s t e
  saved := saved_apply s t e
  cleaned := cleaned_apply s t e
  policy := by
    cases e with
    | policy p =>
      have hp : p.revision = s.store.policy.revision + 1 := h
      exact .inl (show s.store.policy.revision < p.revision by omega)
    | _ => exact .inr rfl

/-- The other events change nothing that `Grows` speaks of. -/
@[simp] theorem grows_inert {s s' : World} {t : ℕ} {e : Event} (hw : ∀ w row, e ≠ .put w row)
    (hc : ∀ c, e ≠ .cleaned c) (hp : ∀ p, e ≠ .policy p) :
    Grows s (s'.apply t e) ↔ Grows s s' := by
  have written : (s'.apply t e).written = s'.written := by
    cases e <;> first | rfl | exact absurd rfl (hw _ _)
  have saved : (s'.apply t e).store.saved = s'.store.saved := by
    cases e <;> first | rfl | exact absurd rfl (hp _)
  have cleaned : (s'.apply t e).memory.cleaned = s'.memory.cleaned := by
    cases e <;> first | rfl | exact absurd rfl (hc _)
  have policy : (s'.apply t e).store.policy = s'.store.policy := by
    cases e <;> first | rfl | exact absurd rfl (hp _)
  exact ⟨fun ⟨w, v, c, p⟩ => ⟨written ▸ w, saved ▸ v, cleaned ▸ c, policy ▸ p⟩,
    fun ⟨w, v, c, p⟩ => ⟨written ▸ w, saved ▸ v, cleaned ▸ c, policy ▸ p⟩⟩

/-- The world grows by a stored record. -/
@[simp] theorem Grows.put {s s' : World} {t : ℕ} {w : Writer} {row : Row} (g : Grows s s') :
    Grows s (s'.apply t (.put w row)) :=
  ⟨fun _ hr => List.mem_cons_of_mem _ (g.written hr), g.saved, g.cleaned, g.policy⟩

/-- The world grows by a cleanup that begins. -/
@[simp] theorem Grows.clean {s s' : World} {t : ℕ} {c : Cleanup} (g : Grows s s') :
    Grows s (s'.apply t (.cleaned c)) :=
  ⟨g.written, g.saved, fun _ hr => Finset.mem_insert_of_mem (g.cleaned hr), g.policy⟩

/-- The world grows as time passes. -/
theorem Grows.drift (s : World) (d : Drift) : Grows s (s.drift d) :=
  ⟨fun _ h => h, fun _ h => h, fun _ h => h, .inr rfl⟩

/-- The world grows by a task that starts. -/
theorem Grows.begin {t : ℕ} {p : Program} {s s' : World} (h : s.begin t p = some s') :
    Grows s s' := by
  unfold World.begin at h
  split at h
  · split_ifs at h
    obtain rfl := Option.some.inj h
    exact ⟨fun _ h => h, fun _ h => h, fun _ h => h, .inr rfl⟩
  · split_ifs at h
    obtain rfl := Option.some.inj h
    exact ⟨fun _ h => h, fun _ h => h, fun _ h => h, .inr rfl⟩
  · split_ifs at h
    obtain rfl := Option.some.inj h
    exact Grows.refl s

/-! ### Primitives -/

section Primitives

variable {cfg : Config} {t : ℕ} {pc : Pc} {s : World} {ε α β : Type}

/-- Nothing follows a `raise`. -/
@[simp] theorem raise_seq (e : ε) (f : α → OpE ε β) :
    (Coro.raise e : OpE ε α) >>= f = Coro.raise e := rfl

/-- Which events the protocol allows. -/
@[simp] theorem ok_emit (e : Event) :
    (protocol cfg).ok t pc s (.emit e) ↔ EventOk cfg pc s e := Iff.rfl

/-- A task that has just been woken has begun no other one. -/
@[simp] theorem ok_park_move (p : Place) (i : Site) :
    (protocol cfg).ok t (pc.move p) s (.park i) ↔ AwaitOk cfg (pc.move p) s i :=
  and_iff_left rfl

/-- An event moves the control point as `Pc.emit` says. -/
@[simp] theorem next_emit (e : Event) : (protocol cfg).next pc (.emit e) = pc.emit e := rfl

/-- An operation that may fail moves it as `Pc.toss` says. -/
@[simp] theorem next_toss (q : StoreCall) (b : Bool) :
    (protocol cfg).next pc (.toss q b) = pc.toss q b := rfl

/-- An await that is answered moves it to where the answer is. -/
@[simp] theorem next_await (i : Site) (a : Answer) :
    (protocol cfg).next ((protocol cfg).next pc (.park i)) (.wake i a) =
      pc.move (.woken i a) := rfl

/-- What an event does to the world. -/
@[simp] theorem gateway_apply (e : Event) : (gateway cfg).apply t e s = s.apply t e := rfl

/-- Which answers an await may get. -/
@[simp] theorem gateway_legal (i : Site) (a : Answer) :
    (gateway cfg).legal s t i a = s.legal t i a := rfl

/-- What the protocol lets the others do meanwhile. -/
@[simp] theorem grows_iff (s' : World) : (protocol cfg).grows s s' ↔ Grows s s' := Iff.rfl

/-- A read of the store raises, or returns what is stored. -/
@[simp] theorem wp_fetch (f : World → α) (q : StoreCall) {Q : α → Pc → World → Prop}
    {E : Exc → Pc → World → Prop} :
    Wp cfg t (fetch f q) Q E pc s ↔ E .storage (pc.toss q true) s ∧ Q (f s) pc s := by
  simp [Wp, fetch]
  tauto

/-- A write of the store raises, or is made if it is in order. -/
@[simp] theorem wp_store (e : Event) (q : StoreCall) {Q : Unit → Pc → World → Prop}
    {E : Exc → Pc → World → Prop} :
    Wp cfg t (store e q) Q E pc s ↔
      E .storage (pc.toss q true) s ∧ EventOk cfg pc s e ∧ Q () (pc.emit e) (s.apply t e) := by
  simp [Wp, store]
  tauto

/-- A write that is not modelled raises or returns. -/
@[simp] theorem wp_storeOther (q : StoreCall) {Q : Unit → Pc → World → Prop}
    {E : Exc → Pc → World → Prop} :
    Wp cfg t (storeOther q) Q E pc s ↔ E .storage (pc.toss q true) s ∧ Q () pc s := by
  simp [Wp, storeOther]
  tauto

/-- A diagnostic never raises. -/
@[simp] theorem wp_event {Q : Unit → Pc → World → Prop} {E : Exc → Pc → World → Prop} :
    Wp cfg t event Q E pc s ↔ Q () pc s ∧ Q () pc (s.apply t (.storeError true)) := by
  simp [Wp, event, EventOk, Pc.emit]

/-- The rule of `policy`. -/
@[simp] theorem wp_policy (q : StoreCall) {Q : Policy → Pc → World → Prop}
    {E : Exc → Pc → World → Prop} :
    Wp cfg t (policy q) Q E pc s ↔ E .storage (pc.toss q true) s ∧ Q s.store.policy pc s :=
  wp_fetch _ q

/-- The rule of `get_row`. -/
@[simp] theorem wp_getRow (id : RowId) (q : StoreCall) {Q : Option Row → Pc → World → Prop}
    {E : Exc → Pc → World → Prop} :
    Wp cfg t (getRow id q) Q E pc s ↔ E .storage (pc.toss q true) s ∧ Q (s.row? id) pc s :=
  wp_fetch _ q

/-- The rule of `sessions`. -/
@[simp] theorem wp_sessions {Q : List Row → Pc → World → Prop} {E : Exc → Pc → World → Prop} :
    Wp cfg t sessions Q E pc s ↔ E .storage pc s ∧ Q s.sessions pc s := by
  rw [sessions, wp_fetch, Pc.toss_read]

/-- The rule of `put_row`: what is stored has to be a record that the writer may write. -/
@[simp] theorem wp_putRow (w : Writer) (row : Row) (q : StoreCall)
    {Q : Unit → Pc → World → Prop} {E : Exc → Pc → World → Prop} :
    Wp cfg t (putRow w row q) Q E pc s ↔ E .storage (pc.toss q true) s ∧
      RowWrite cfg pc s row w ∧ Q () (pc.emit (.put w row)) (s.apply t (.put w row)) :=
  wp_store _ q

/-- A number that is drawn is fresh. -/
@[simp] theorem wp_uuid {Q : ℕ → Pc → World → Prop} {E : Exc → Pc → World → Prop} :
    Wp cfg t uuid Q E pc s ↔
      Q s.uuids (pc.emit (.uuid s.uuids)) (s.apply t (.uuid s.uuids)) := by
  simp [Wp, uuid, EventOk]

/-- The clock shows the time of the world. -/
@[simp] theorem wp_now {Q : ℚ → Pc → World → Prop} {E : Exc → Pc → World → Prop} :
    Wp cfg t now Q E pc s ↔ Q s.now pc s := by simp [Wp, now]

/-- A look at the memory. -/
@[simp] theorem wp_memory (f : Memory → α) {Q : α → Pc → World → Prop}
    {E : Exc → Pc → World → Prop} :
    Wp cfg t (memory f) Q E pc s ↔ Q (f s.memory) pc s := by simp [Wp, memory]

/-- A task is spawned under a fresh handle, if it is in order. -/
@[simp] theorem wp_spawn (w : Work) {Q : ℕ → Pc → World → Prop} {E : Exc → Pc → World → Prop} :
    Wp cfg t (spawn w) Q E pc s ↔
      EventOk cfg (pc.emit (.uuid s.uuids)) (s.apply t (.uuid s.uuids)) (.spawn s.uuids w) ∧
      Q s.uuids ((pc.emit (.uuid s.uuids)).emit (.spawn s.uuids w))
        ((s.apply t (.uuid s.uuids)).apply t (.spawn s.uuids w)) := by
  simp [Wp, spawn, wp_uuid]

end Primitives

/-! ### Quiet coroutines -/

/-- The places a task may be woken at. -/
def Anywhere : Place → Prop := fun _ => True

/-- What a quiet coroutine leaves: its control point at a place in `A`, and a state
that grew. -/
def After (A : Place → Prop) (pc : Pc) (s : World) (pc' : Pc) (s' : World) : Prop :=
  (∃ p, A p ∧ pc' = pc.move p) ∧ Grows s s'

/-- `c` keeps the protocol and ends, one way or another, with what it held before and
at a place in `A`. -/
def Quiet (cfg : Config) (t : ℕ) {ε α : Type} (A : Place → Prop) (c : OpE ε α) (pc : Pc)
    (s : World) : Prop :=
  Wp cfg t c (fun _ => After A pc s) (fun _ => After A pc s) pc s

/-- The control point is at a place in `A`, and nothing was drawn or started in this
piece. -/
structure Pc.At (pc : Pc) (A : Place → Prop) : Prop where
  clean : pc.Clean
  place : A pc.place

section Quiet

variable {cfg : Config} {t : ℕ} {A : Place → Prop} {pc : Pc} {s : World} {ε ε' α β : Type}

/-- A moved control point is where it was moved. -/
theorem Pc.at_move {p : Place} (h : A p) : (pc.move p).At A := ⟨pc.clean_move p, h⟩

/-- It is somewhere. -/
theorem Pc.at_anywhere {p : Place} : (pc.move p).At Anywhere := ⟨pc.clean_move p, trivial⟩

/-- A point in `A` is one that is reached when only the world grows. -/
theorem Pc.At.after (h : pc.At A) {s' : World} (g : Grows s s') : After A pc s pc s' :=
  ⟨⟨_, h.place, h.clean.move_self.symm⟩, g⟩

/-- It is reached when nothing happens. -/
theorem Pc.At.refl (h : pc.At A) (s : World) : After A pc s pc s := h.after (Grows.refl s)

/-- A move to a place in `A` reaches it. -/
theorem After.move {p : Place} (h : A p) {s' : World} (g : Grows s s') :
    After A pc s (pc.move p) s' := ⟨⟨p, h, rfl⟩, g⟩

/-- When a moved point is reached. -/
@[simp] theorem after_move {p : Place} {s' : World} :
    After A pc s (pc.move p) s' ↔ A p ∧ Grows s s' := by
  refine ⟨fun ⟨⟨q, hq, e⟩, g⟩ => ⟨?_, g⟩, fun h => After.move h.1 h.2⟩
  have : p = q := congrArg Pc.place e
  exact this ▸ hq

/-- The same from a point that had been moved. -/
@[simp] theorem after_moved {p : Place} {s' : World} :
    After A (pc.move p) s (pc.move p) s' ↔ A p ∧ Grows s s' := by
  rw [← after_move, Pc.move_move]

/-- What is reached later is reached. -/
theorem After.trans {p : Place} {s' s'' : World} {pc' : Pc} (g : Grows s s')
    (h : After A (pc.move p) s' pc' s'') : After A pc s pc' s'' := by
  obtain ⟨⟨q, hq, rfl⟩, g'⟩ := h
  exact ⟨⟨q, hq, rfl⟩, g.trans g'⟩

/-- **The rule of quiet coroutines**: what follows has to hold at every place in `A`. -/
theorem wp_quiet {c : OpE ε α} {Q : α → Pc → World → Prop} {E : ε → Pc → World → Prop}
    (hc : Quiet cfg t A c pc s) (hQ : ∀ p s', A p → Grows s s' → ∀ a, Q a (pc.move p) s')
    (hE : ∀ p s', A p → Grows s s' → ∀ e, E e (pc.move p) s') : Wp cfg t c Q E pc s := by
  refine wp_mono (fun a pc' s' h => ?_) (fun e pc' s' h => ?_) c hc
  · obtain ⟨⟨p, hp, rfl⟩, g⟩ := h
    exact hQ p s' hp g a
  · obtain ⟨⟨p, hp, rfl⟩, g⟩ := h
    exact hE p s' hp g e

/-- A quiet coroutine may be followed from an earlier control point. -/
theorem Quiet.later {c : OpE ε α} {p : Place} {s' : World} (h : Quiet cfg t A c (pc.move p) s')
    (g : Grows s s') :
    Wp cfg t c (fun _ => After A pc s) (fun _ => After A pc s) (pc.move p) s' :=
  wp_mono (fun _ _ _ => After.trans g) (fun _ _ _ => After.trans g) c h

/-- The same for a coroutine that starts where the earlier one did. -/
theorem Quiet.still {c : OpE ε α} {s' : World} (h : Quiet cfg t A c pc s') (g : Grows s s') :
    Wp cfg t c (fun _ => After A pc s) (fun _ => After A pc s) pc s' :=
  wp_mono (fun _ _ _ => And.imp_right g.trans) (fun _ _ _ => And.imp_right g.trans) c h

/-- Quiet parts make a quiet sequence. -/
theorem Quiet.bind {c : OpE ε α} {f : α → OpE ε β} (hc : Quiet cfg t A c pc s)
    (hf : ∀ a p s', A p → Grows s s' → Quiet cfg t A (f a) (pc.move p) s') :
    Quiet cfg t A (c >>= f) pc s :=
  (wp_bind' c).2 (wp_quiet hc (fun p s' hp g a => (hf a p s' hp g).later g)
    fun _ _ hp g _ => After.move hp g)

/-- A result that is ignored changes nothing. -/
theorem Quiet.discard {c : OpE ε α} (hc : Quiet cfg t A c pc s) :
    Quiet cfg t A (Functor.discard c) pc s := (wp_discard c).2 hc

/-- Nor does an error that is handed on as a value. -/
theorem Quiet.attempt {c : OpE ε α} (hc : Quiet cfg t A c pc s) :
    Quiet cfg t A (c.attempt : OpE ε' _) pc s := (wp_attempt c).2 hc

/-- Nor does an error that is raised as another. -/
theorem Quiet.mapError {c : OpE ε α} {f : ε → ε'} (hc : Quiet cfg t A c pc s) :
    Quiet cfg t A (c.mapError f) pc s := (wp_mapError f c).2 hc

/-- A quiet body with a quiet handler is quiet. -/
theorem Quiet.tryCatch {c : OpE ε α} {f : ε → OpE ε' α} (hc : Quiet cfg t A c pc s)
    (hf : ∀ e p s', A p → Grows s s' → Quiet cfg t A (f e) (pc.move p) s') :
    Quiet cfg t A (c.tryCatch f) pc s :=
  (wp_tryCatch c).2 (wp_quiet hc (fun _ _ hp g _ => After.move hp g)
    fun p s' hp g e => (hf e p s' hp g).later g)

/-- So is a quiet body with a quiet `finally`. -/
theorem Quiet.tryFinally {c : OpE ε α} {after : OpE ε Unit} (hc : Quiet cfg t A c pc s)
    (hf : ∀ p s', A p → Grows s s' → Quiet cfg t A after (pc.move p) s') :
    Quiet cfg t A (c.tryFinally after) pc s :=
  (wp_tryFinally c).2 (wp_quiet hc (fun p s' hp g _ => (hf p s' hp g).later g)
    fun p s' hp g _ => (hf p s' hp g).later g)

/-- Quiet branches make a quiet choice. -/
theorem Quiet.ite {p : Prop} [Decidable p] {c d : OpE ε α} (hc : p → Quiet cfg t A c pc s)
    (hd : ¬p → Quiet cfg t A d pc s) : Quiet cfg t A (if p then c else d) pc s :=
  (wp_ite p c d).2 ⟨hc, hd⟩

/-- A `return` is quiet. -/
theorem quiet_pure (h : pc.At A) (a : α) : Quiet cfg t A (pure a : OpE ε α) pc s := h.refl s

/-- A `raise` is quiet. -/
theorem quiet_raise (h : pc.At A) (e : ε) : Quiet cfg t A (.raise e : OpE ε α) pc s := h.refl s

/-- So is whichever of the two. -/
theorem quiet_ofExcept (h : pc.At A) (x : Except ε α) :
    Quiet cfg t A (Coro.ofExcept x : OpE ε α) pc s := by
  cases x with
  | ok a => exact h.refl s
  | error e => exact h.refl s

/-- An await that is in order is quiet, if its answers lead to `A`. -/
theorem quiet_suspend {i : Site} (h : AwaitOk cfg pc s i) (hA : ∀ a, A (.woken i a))
    (hb : pc.begun = none := by rfl) : Quiet cfg t A (Coro.suspend i : OpE ε _) pc s :=
  ⟨⟨h, hb⟩, fun _ a g _ => After.move (hA a) g⟩

/-- An event is quiet that is in order and does not touch the control point. -/
theorem quiet_perform (h : pc.At A) {e : Event} (he : EventOk cfg pc s e) (hp : pc.emit e = pc) :
    Quiet cfg t A (Coro.perform e : OpE ε _) pc s := by
  refine ⟨he, ?_⟩
  rw [next_emit, hp]
  exact h.after (Grows.apply t he)

/-- A read of the store is quiet. -/
theorem quiet_fetch (h : pc.At A) (f : World → α) : Quiet cfg t A (fetch f) pc s :=
  (wp_fetch f _).2 ⟨by simpa using h.refl s, h.refl s⟩

/-- A write of the store is quiet, if its event is. -/
theorem quiet_store (h : pc.At A) {e : Event} (he : EventOk cfg pc s e) (hp : pc.emit e = pc) :
    Quiet cfg t A (store e) pc s := by
  refine (wp_store e _).2 ⟨by simpa using h.refl s, he, ?_⟩
  rw [hp]
  exact h.after (Grows.apply t he)

/-- A write that is not modelled is quiet, unless its failure is remembered. -/
theorem quiet_storeOther (h : pc.At A) {q : StoreCall} (hq : ∀ b, pc.toss q b = pc) :
    Quiet cfg t A (storeOther q) pc s :=
  (wp_storeOther q).2 ⟨by simpa [hq] using h.refl s, h.refl s⟩

/-- A diagnostic is quiet. -/
theorem quiet_event (h : pc.At A) : Quiet cfg t A event pc s := by
  have he : EventOk cfg pc s (.storeError true) := trivial
  exact wp_event.2 ⟨h.refl s, h.after (Grows.apply t he)⟩

/-- A look at the clock is quiet. -/
theorem quiet_now (h : pc.At A) : Quiet cfg t A now pc s := by
  rw [Quiet, wp_now]
  exact h.refl s

/-- A look at the memory is quiet. -/
theorem quiet_memory (h : pc.At A) (f : Memory → α) : Quiet cfg t A (memory f) pc s := by
  rw [Quiet, wp_memory]
  exact h.refl s

/-- The task is the cleanup of a chat request, a restart, an opener or its callback, or one
that takes the slot of the sweep. -/
def Work.special : Work → Bool
  | .cleanup _ | .restart .. | .opener .. | .openerDone .. | .sweep | .treasury => true
  | _ => false

/-- Spawning any other task leaves the control point as it was. -/
theorem emit_spawn {w : Work} (hw : w.special = false) (hu : pc.uuid = none) (n : ℕ) :
    (pc.emit (.uuid n)).emit (.spawn n w) = pc := by
  cases pc
  cases w <;> simp_all [Pc.emit, Work.special]

/-- A task without a part in the protocol may be spawned at any time. -/
theorem ok_spawn {w : Work} (hw : w.special = false) (n : ℕ) :
    EventOk cfg (pc.emit (.uuid n)) s (.spawn n w) := by
  cases w <;> simp_all [EventOk, Pc.emit, Work.special]

/-- Spawning a task changes nothing in the store, and starts or ends no maintenance. -/
theorem wp_spawn_of {w : Work} (hw : w.special = false) (hu : pc.uuid = none)
    {Q : ℕ → Pc → World → Prop} {E : Exc → Pc → World → Prop}
    (hQ : ∀ n s', Grows s s' → s'.store = s.store ∧ s'.memory.maintenance = s.memory.maintenance →
      Q n pc s') : Wp cfg t (spawn w) Q E pc s := by
  have hd : EventOk cfg pc s (.uuid s.uuids) := rfl
  have hs : EventOk cfg (pc.emit (.uuid s.uuids)) (s.apply t (.uuid s.uuids)) (.spawn s.uuids w) :=
    ok_spawn hw _
  refine (wp_spawn w).2 ⟨hs, ?_⟩
  rw [emit_spawn hw hu]
  exact hQ _ _ ((Grows.apply t hd).trans (Grows.apply t hs)) ⟨rfl, rfl⟩

/-- Spawning one is quiet. -/
theorem quiet_spawn (h : pc.At A) {w : Work} (hw : w.special = false) :
    Quiet cfg t A (spawn w) pc s :=
  wp_spawn_of hw h.clean.1 fun _ _ g _ => h.after g

end Quiet

end MorpheusGateway
