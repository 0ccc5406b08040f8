/-
# What a coroutine may do at all

Most coroutines keep a contract for a simple reason: none of the entries that the contract
restricts is among those they make.  `Keeps S K R c` says that `c` is in order wherever it
is run from a control point with `R`, in every state.  It says nothing of results, so it
follows from the parts of `c` alone, and is found by instance resolution: an instance for
each way of putting coroutines together, one for the entries that are always in order
(`Licensed`), and one for each function of the program.
-/

import MorpheusGateway.Coroutine.Contract

namespace MorpheusGateway
namespace Contract

variable {σ Ev κ ι ρ π δ Pc ε ε' α β : Type}

/-- The entry leaves `R` true of the control point. -/
class Stays (K : Contract σ Ev κ ι ρ π Pc) (R : Pc → Prop) (a : Entry Ev κ ι ρ π) : Prop where
  next {pc} (h : R pc) : R (K.next pc a)

/-- The entry is in order at every control point with `R`. -/
class Licensed (K : Contract σ Ev κ ι ρ π Pc) (R : Pc → Prop) (a : Entry Ev κ ι ρ π) : Prop where
  ok (t : ℕ) {pc} (s : σ) (h : R pc) : K.ok t pc s a

/-- All entries of `c` are in order, from every control point with `R` and in every state. -/
class Keeps (S : System σ Ev κ ι ρ π δ) (K : Contract σ Ev κ ι ρ π Pc) (R : Pc → Prop)
    (c : Coro σ Ev κ ι ρ ε α) : Prop where
  wp (t : ℕ) {pc} (s : σ) (h : R pc) :
    K.wp S t c (fun _ pc _ => R pc) (fun _ pc _ => R pc) pc s

variable {S : System σ Ev κ ι ρ π δ} {K : Contract σ Ev κ ι ρ π Pc} {R : Pc → Prop}

/-- A coroutine goes on in order if what follows each of its outcomes does. -/
theorem Keeps.then {c : Coro σ Ev κ ι ρ ε α} [hc : K.Keeps S R c] {t : ℕ} {pc : Pc} {s : σ}
    (h : R pc) {Q : α → Pc → σ → Prop} {E : ε → Pc → σ → Prop}
    (hQ : ∀ a pc s, R pc → Q a pc s) (hE : ∀ e pc s, R pc → E e pc s) : K.wp S t c Q E pc s :=
  wp_mono hQ hE c (hc.wp t s h)

instance (a : α) : K.Keeps S R (pure a : Coro σ Ev κ ι ρ ε α) := ⟨fun _ _ _ h => h⟩

instance (e : ε) : K.Keeps S R (Coro.raise e : Coro σ Ev κ ι ρ ε α) := ⟨fun _ _ _ h => h⟩

instance : K.Keeps S R (Coro.get : Coro σ Ev κ ι ρ ε σ) := ⟨fun _ _ _ h => h⟩

instance (x : Except ε α) : K.Keeps S R (Coro.ofExcept x : Coro σ Ev κ ι ρ ε α) where
  wp _ _ _ h := by
    rw [wp_ofExcept]
    exact ⟨fun _ _ => h, fun _ _ => h⟩

instance (q : κ) [hq : ∀ b, K.Stays R (.toss q b)] :
    K.Keeps S R (Coro.fails q : Coro σ Ev κ ι ρ ε Bool) :=
  ⟨fun _ _ _ h b => (hq b).next h⟩

instance (e : Ev) [he : K.Licensed R (.emit e)] [hs : K.Stays R (.emit e)] :
    K.Keeps S R (Coro.perform e : Coro σ Ev κ ι ρ ε Unit) :=
  ⟨fun t _ s h => ⟨he.ok t s h, hs.next h⟩⟩

instance (i : ι) [hi : K.Licensed R (.park i)] [hs : K.Stays R (.park i)]
    [hw : ∀ r, K.Stays R (.wake i r)] : K.Keeps S R (Coro.suspend i : Coro σ Ev κ ι ρ ε ρ) :=
  ⟨fun t _ s h => ⟨hi.ok t s h, fun _ r _ _ => (hw r).next (hs.next h)⟩⟩

/-- A sequence of parts that keep the relation keeps it. -/
theorem Keeps.bind {c : Coro σ Ev κ ι ρ ε α} {f : α → Coro σ Ev κ ι ρ ε β}
    (hc : K.Keeps S R c) (hf : ∀ a, K.Keeps S R (f a)) : K.Keeps S R (c >>= f) where
  wp t _ _ h := (wp_bind' c).2 (hc.then h (fun a _ s h => (hf a).wp t s h) fun _ _ _ h => h)

instance (c : Coro σ Ev κ ι ρ ε α) (f : α → Coro σ Ev κ ι ρ ε β) [hc : K.Keeps S R c]
    [hf : ∀ a, K.Keeps S R (f a)] : K.Keeps S R (c >>= f) := hc.bind hf

/-- Nothing follows an exception. -/
instance (priority := high) (e : ε) (f : α → Coro σ Ev κ ι ρ ε β) :
    K.Keeps S R ((Coro.raise e : Coro σ Ev κ ι ρ ε α) >>= f) := ⟨fun _ _ _ h => h⟩

instance (c : Coro σ Ev κ ι ρ ε α) (f : α → β) [hc : K.Keeps S R c] : K.Keeps S R (f <$> c) :=
  hc.bind fun _ => ⟨fun _ _ _ h => h⟩

instance (c : Coro σ Ev κ ι ρ ε α) [hc : K.Keeps S R c] : K.Keeps S R (discard c) :=
  hc.bind fun _ => ⟨fun _ _ _ h => h⟩

instance (c : Coro σ Ev κ ι ρ ε α) [hc : K.Keeps S R c] :
    K.Keeps S R (c.attempt : Coro σ Ev κ ι ρ ε' (Except ε α)) where
  wp t _ s h := (wp_attempt c).2 (hc.wp t s h)

instance (c : Coro σ Ev κ ι ρ ε α) (f : ε → ε') [hc : K.Keeps S R c] :
    K.Keeps S R (c.mapError f) where
  wp t _ s h := (wp_mapError f c).2 (hc.wp t s h)

/-- So does a body with its handler. -/
theorem Keeps.tryCatch {c : Coro σ Ev κ ι ρ ε α} {f : ε → Coro σ Ev κ ι ρ ε' α}
    (hc : K.Keeps S R c) (hf : ∀ e, K.Keeps S R (f e)) : K.Keeps S R (c.tryCatch f) where
  wp t _ _ h := (wp_tryCatch c).2 (hc.then h (fun _ _ _ h => h) fun e _ s h => (hf e).wp t s h)

instance (c : Coro σ Ev κ ι ρ ε α) (f : ε → Coro σ Ev κ ι ρ ε' α) [hc : K.Keeps S R c]
    [hf : ∀ e, K.Keeps S R (f e)] : K.Keeps S R (c.tryCatch f) := hc.tryCatch hf

instance (c : Coro σ Ev κ ι ρ ε α) (f : Coro σ Ev κ ι ρ ε Unit) [hc : K.Keeps S R c]
    [hf : K.Keeps S R f] : K.Keeps S R (c.tryFinally f) where
  wp _ _ _ h := (wp_tryFinally c).2 (hc.then h
    (fun _ _ _ h => hf.then h (fun _ _ _ h => h) fun _ _ _ h => h)
    fun _ _ _ h => hf.then h (fun _ _ _ h => h) fun _ _ _ h => h)

instance (p : Prop) [Decidable p] (c d : Coro σ Ev κ ι ρ ε α) [hc : K.Keeps S R c]
    [hd : K.Keeps S R d] : K.Keeps S R (if p then c else d) := by
  split
  · exact hc
  · exact hd

end Contract
end MorpheusGateway
