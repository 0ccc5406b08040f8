/-
# Nothing leaks

A lease is given back, and a request of a key dismissed, by whoever holds it then: the task
that serves the request, or the one that cleans up after it.  `Conserved` says that there is
always somebody: no lease is left in `active`, and no request counted, that nobody has in hand.
A task that ends has given back what it held, unless a store operation failed where the source
does not survive it (`ReleasesSucceed`).
-/

import MorpheusGateway.Guarantees.Revoking
import MorpheusGateway.Protocol.Admissions

namespace MorpheusGateway

open Contract

variable {cfg : Config} {C : ItemRule}

/-- No store operation fails in the queue or in the handling of a failed request. -/
def ReleasesSucceed : ItemRule
  | _, _, .task _ (.toss q true) => q ≠ .queueRead ∧ q ≠ .handler
  | _, _, _ => True

/-- The record is leased to a task under way, or to a request whose cleanup is to start or has
started and not begun. -/
def InHand (s : World) (l : List LogItem) (id : RowId) : Prop :=
  (∃ t pc, pcAt l t = some pc ∧ pc.lease = some id) ∨
    ∃ c, c.row.map Row.id = some id ∧ c.request ∉ s.memory.cleaned ∧
      ((∃ handle, (handle, Work.cleanup c) ∈ s.memory.spawned) ∨
        ∃ t pc, pcAt l t = some pc ∧ pc.pledge = some c)

/-- The request of the key is served or cleaned up after by a task under way, or its cleanup is
to start or has started and not begun. -/
def Served (s : World) (l : List LogItem) (r : ℕ) (key : String) : Prop :=
  (∃ t pc, pcAt l t = some pc ∧ pc.key = some (r, key)) ∨
    ∃ c, (c.request, c.key) = (r, key) ∧ c.request ∉ s.memory.cleaned ∧
      ((∃ handle, (handle, Work.cleanup c) ∈ s.memory.spawned) ∨
        ∃ t pc, pcAt l t = some pc ∧ pc.pledge = some c)

/-- What is leased is in hand, the count of a key is that of its requests, each of which is
served, and the wallet lock and the places in the queue are those of tasks under way. -/
def LeaksNothing : ItemRule := fun s l _ =>
  (∀ id, id ∈ s.memory.active ↔ InHand s l id) ∧
  (∀ key, s.memory.keyActive key = (unfinished key l).length ∧ (unfinished key l).Nodup ∧
    ∀ r, r ∈ unfinished key l ↔ Served s l r key) ∧
  (∀ t, s.memory.lock = some t ↔ ∃ pc, pcAt l t = some pc ∧ pc.lock = true) ∧
  s.memory.waiting = (queueing l).length ∧ (queueing l).Nodup ∧
    ∀ t, t ∈ queueing l ↔ ∃ pc, pcAt l t = some pc ∧ pc.waits = true

/-! ### Tasks that do not leak -/

/-- No event is a leak. -/
theorem Pc.leaks_emit (pc : Pc) (e : Event) : (pc.emit e).leaks = pc.leaks := by
  cases e with
  | put w row =>
    cases w
    all_goals rfl
  | putOperation w op =>
    cases w
    all_goals rfl
  | spawn handle w =>
    cases w
    all_goals rfl
  | maintenance on =>
    cases on
    all_goals rfl
  | attempt a =>
    simp only [Pc.emit]
    split
    all_goals rfl
  | _ => rfl

/-- A task starts without one. -/
theorem Pc.enter_leaks (p : Program) : (Pc.enter p).leaks = false := by
  cases p with
  | task handle w =>
    cases w
    all_goals rfl
  | _ => rfl

/-- No task leaks. -/
def Leakless (l : List LogItem) : Prop :=
  ∀ t pc, pcAt l t = some pc → pc.leaks = false

/-- A step is without a leak if its task is. -/
theorem Leakless.task {l : List LogItem} {t : ℕ} {a : LogEntry} (h : Leakless l)
    (own : ∀ pc', (protocol {}).advance a (pcAt l t) = some pc' → pc'.leaks = false) :
    Leakless (.task t a :: l) :=
  forall_pcAt (J := fun _ pc => pc.leaks = false) own fun u q _ hq => h u q hq

/-- **No task leaks**, in every run in which the releases succeed. -/
theorem maintained_leakless (hC : ∀ {s l x}, C s l x → ReleasesSucceed s l x) :
    Maintained (gateway cfg) (protocol cfg) Installed C fun _ l => Leakless l where
  init _ _ _ h := by cases h
  start {s t p s' l} h _ _ _ := h.task fun pc' hpc' => by
    obtain rfl := Option.some.inj hpc'
    exact Pc.enter_leaks p
  wake {s t pc i r l} h at_ _ _ _ := h.task fun pc' hpc' => by
    rw [point_protocol] at at_
    rw [at_] at hpc'
    obtain rfl := Option.some.inj hpc'
    exact h t pc at_
  emit {s t pc e l} h at_ _ _ := h.task fun pc' hpc' => by
    rw [point_protocol] at at_
    rw [at_] at hpc'
    obtain rfl := Option.some.inj hpc'
    exact (pc.leaks_emit e).trans (h t pc at_)
  toss {s t pc q b l} h at_ c := h.task fun pc' hpc' => by
    rw [point_protocol] at at_
    rw [at_] at hpc'
    obtain rfl := Option.some.inj hpc'
    have ok := hC c
    have mine := h t pc at_
    show (pc.toss q b).leaks = false
    unfold Pc.toss
    split_ifs with h1 h2
    · obtain ⟨hb, hq⟩ := h1
      rw [hb] at ok
      exact absurd hq (not_or.2 ok)
    · exact mine
    · exact mine
  park {s t pc i l} h at_ _ _ := h.task fun pc' hpc' => by
    rw [point_protocol] at at_
    rw [at_] at hpc'
    obtain rfl := Option.some.inj hpc'
    exact h t pc at_
  stop h _ _ _ := h.task fun _ hpc' => by cases hpc'
  drift h _ := h
  crash _ _ _ _ h := by cases h

/-! ### Requests that were admitted -/

/-- Since the last crash, a request was admitted under this number. -/
def WasAdmitted (r : ℕ) : List LogItem → Prop
  | [] | .crash :: _ => False
  | .task _ (.emit (.admitted r' _ _)) :: l => r = r' ∨ WasAdmitted r l
  | _ :: l => WasAdmitted r l

/-- A request that was admitted was admitted. -/
theorem WasAdmitted.older {r t : ℕ} {a : LogEntry} {l : List LogItem} (h : WasAdmitted r l) :
    WasAdmitted r (.task t a :: l) := by
  cases a with
  | emit e =>
    cases e with
    | admitted => exact .inr h
    | _ => exact h
  | _ => exact h

/-- It was admitted before, or just now. -/
theorem WasAdmitted.elim {r t : ℕ} {a : LogEntry} {l : List LogItem}
    (h : WasAdmitted r (.task t a :: l)) :
    WasAdmitted r l ∨ ∃ key n, a = .emit (.admitted r key n) := by
  cases a with
  | emit e =>
    cases e with
    | admitted r' key n =>
      rcases h with rfl | h
      · exact .inr ⟨key, n, rfl⟩
      · exact .inl h
    | _ => exact .inl h
  | _ => exact .inl h

/-- Requests are admitted under numbers drawn for them. -/
theorem Run.admittedOnce {s : World} {P : ℕ → Option Pc} {run : Option ℕ} {l : List LogItem}
    (tr : Run cfg C s P run l) : Drawn (fun l n => WasAdmitted n l) s l := by
  refine (maintained_drawn (C := fun s l x => C s l x ∧ QuietedItem s l x) (fun c => c.2)
    (fun _ h => h) (fun _ _ h => h) (fun _ _ _ h => h) fun {t a l n} h => ?_).traj (Run.quieted tr)
  refine h.elim.imp_right ?_
  rintro ⟨key, n, rfl⟩
  exact ⟨_, rfl, fun pc s ok => ⟨ok.1, rfl, rfl⟩⟩

/-- An unfinished request was admitted. -/
theorem wasAdmitted_of_unfinished {key : String} {r : ℕ} {l : List LogItem}
    (h : r ∈ unfinished key l) : WasAdmitted r l := by
  induction l with
  | nil => cases h
  | cons x l ih =>
    cases x with
    | crash => cases h
    | drift d => exact ih h
    | task t a =>
      by_cases ha : ∃ k n r', a = .emit (.admitted r' k n)
      · obtain ⟨k, n, r', rfl⟩ := ha
        rw [unfinished_admitted] at h
        split_ifs at h
        · exact (List.mem_cons.1 h).imp_right ih
        · exact .inr (ih h)
      refine (ih ?_).older
      by_cases hd : a = .emit (.dismiss key)
      · subst hd
        rw [unfinished, if_pos rfl] at h
        split at h
        · exact List.mem_of_mem_erase h
        · exact h
      · rwa [unfinished_task (fun r n he => ha ⟨key, n, r, he⟩) hd] at h

/-! ### Conservation -/

/-- A lease goes on with its holder. -/
theorem Owns.onward {s s' : World} {P : ℕ → Option Pc} {l : List LogItem} {t : ℕ} {a : LogEntry}
    {v : Option Pc} {id : RowId} {o : Holder} (h : Owns s P l id o)
    (mine : o = .task t → ∃ pc', v = some pc' ∧ pc'.lease = some id)
    (new : ∀ c, o = .request c → c.request ∉ s'.memory.cleaned) :
    Owns s' (Function.update P t v) (.task t a :: l) id o := by
  cases o with
  | task u =>
    obtain ⟨q, hq, hl⟩ := h
    rcases eq_or_ne u t with rfl | hu
    · obtain ⟨pc', rfl, hl'⟩ := mine rfl
      exact ⟨pc', Function.update_self .., hl'⟩
    · exact ⟨q, (Function.update_of_ne hu ..).trans hq, hl⟩
  | request c => exact ⟨new c rfl, h.2.1.older, h.2.2⟩

/-- A request goes on with its holder. -/
theorem Keeps.onward {s s' : World} {P : ℕ → Option Pc} {l : List LogItem} {t : ℕ} {a : LogEntry}
    {v : Option Pc} {x : ℕ × String} {o : Holder} (h : Keeps s P l x o)
    (mine : o = .task t → ∃ pc', v = some pc' ∧ pc'.key = some x)
    (new : ∀ c, o = .request c → c.request ∉ s'.memory.cleaned) :
    Keeps s' (Function.update P t v) (.task t a :: l) x o := by
  cases o with
  | task u =>
    obtain ⟨q, hq, hl⟩ := h
    rcases eq_or_ne u t with rfl | hu
    · obtain ⟨pc', rfl, hl'⟩ := mine rfl
      exact ⟨pc', Function.update_self .., hl'⟩
    · exact ⟨q, (Function.update_of_ne hu ..).trans hq, hl⟩
  | request c => exact ⟨new c rfl, h.2.1.older, h.2.2⟩

/-- The cleanup is to start, or its task has not begun with it. -/
def Unbegun (s : World) (P : ℕ → Option Pc) (c : Cleanup) : Prop :=
  (∃ handle, (handle, Work.cleanup c) ∈ s.memory.spawned) ∨ ∃ t pc, P t = some pc ∧ pc.pledge = some c

/-- Every lease and every unfinished request has a holder, and every cleanup that was handed over
is pending until it begins.  A request is cleaned up after under the number it was admitted
under, and not before the task that serves it says so. -/
structure Conserved (s : World) (P : ℕ → Option Pc) (l : List LogItem) : Prop where
  leases : ∀ id ∈ s.memory.active, ∃ o, Owns s P l id o
  requests : ∀ key, ∀ r ∈ unfinished key l, ∃ o, Keeps s P l (r, key) o
  pending : ∀ c, Entrusted l c → c.request ∉ s.memory.cleaned → Unbegun s P c
  known : ∀ r ∈ s.memory.cleaned, WasAdmitted r l
  fresh : ∀ t pc r key, P t = some pc → pc.key = some (r, key) → pc.cleaning = false →
    r ∉ s.memory.cleaned
  apart : ∀ t pc c, P t = some pc → pc.pledge = some c → pc.key = none ∧ pc.entrusted = none

/-- A pending cleanup stays so when the task that moves has not pledged it, or keeps its pledge. -/
theorem Unbegun.onward {s s' : World} {P : ℕ → Option Pc} {t : ℕ} {v : Option Pc} {c : Cleanup}
    (h : Unbegun s P c) (hs : ∀ x ∈ s.memory.spawned, x ∈ s'.memory.spawned)
    (mine : ∀ pc, P t = some pc → pc.pledge = some c → ∃ pc', v = some pc' ∧ pc'.pledge = some c) :
    Unbegun s' (Function.update P t v) c := by
  rcases h with ⟨handle, hh⟩ | ⟨u, pc, hpc, hp⟩
  · exact .inl ⟨handle, hs _ hh⟩
  · rcases eq_or_ne u t with rfl | hu
    · obtain ⟨pc', rfl, hp'⟩ := mine pc hpc hp
      exact .inr ⟨u, pc', Function.update_self .., hp'⟩
    · exact .inr ⟨u, pc, (Function.update_of_ne hu ..).trans hpc, hp⟩

section Steps

variable {s s' : World} {P : ℕ → Option Pc} {l : List LogItem} {t : ℕ} {a : LogEntry} {pc pc' : Pc}

/-- A task moves and keeps its request and its pledge; the memory only has more tasks to start. -/
theorem Conserved.move (h : Conserved s P l) (at_ : P t = some pc) (hk : pc'.key = pc.key)
    (hcl : pc'.cleaning = pc.cleaning) (hp : pc'.pledge = pc.pledge)
    (he : pc'.entrusted = pc.entrusted) (hc : s'.memory.cleaned = s.memory.cleaned)
    (hs : ∀ x ∈ s.memory.spawned, x ∈ s'.memory.spawned)
    (hw : ∀ handle c, a ≠ .emit (.spawn handle (.cleanup c)))
    (hu : ∀ k, unfinished k (.task t a :: l) = unfinished k l)
    (leases : ∀ id ∈ s'.memory.active,
      ∃ o, Owns s' (Function.update P t (some pc')) (.task t a :: l) id o) :
    Conserved s' (Function.update P t (some pc')) (.task t a :: l) where
  leases := leases
  requests k r hr := by
    rw [hu] at hr
    obtain ⟨o, ho⟩ := h.requests k r hr
    refine ⟨o, ho.onward (fun ht => ?_) fun c hc' => ?_⟩
    · subst ht
      obtain ⟨q, hq, hx⟩ := ho
      obtain rfl := Option.some.inj (at_.symm.trans hq)
      exact ⟨pc', rfl, hk.trans hx⟩
    · subst hc'
      rw [hc]
      exact ho.1
  pending c hc' hn := by
    rw [hc] at hn
    have old := hc'.elim.resolve_right fun ⟨handle, ha⟩ => hw handle c ha
    refine (h.pending c old hn).onward hs fun q hq hpl => ?_
    obtain rfl := Option.some.inj (at_.symm.trans hq)
    exact ⟨pc', rfl, hp.trans hpl⟩
  known r hr := (h.known r (hc ▸ hr)).older
  fresh u q r k hq hx hcl' := by
    rw [hc]
    rcases eq_or_ne u t with rfl | hu
    · rw [Function.update_self] at hq
      obtain rfl := Option.some.inj hq
      exact h.fresh u pc r k at_ (hk.symm.trans hx) (hcl.symm.trans hcl')
    · rw [Function.update_of_ne hu] at hq
      exact h.fresh u q r k hq hx hcl'
  apart u q c hq hpl := by
    rcases eq_or_ne u t with rfl | hu
    · rw [Function.update_self] at hq
      obtain rfl := Option.some.inj hq
      rw [hk, he]
      exact h.apart u pc c at_ (hp.symm.trans hpl)
    · rw [Function.update_of_ne hu] at hq
      exact h.apart u q c hq hpl

/-- The leases stay with their holders. -/
theorem Conserved.leases_onward (h : Conserved s P l) (at_ : P t = some pc)
    (hl : pc'.lease = pc.lease) (hc : s'.memory.cleaned = s.memory.cleaned) {id : RowId}
    (hi : id ∈ s.memory.active) :
    ∃ o, Owns s' (Function.update P t (some pc')) (.task t a :: l) id o := by
  obtain ⟨o, ho⟩ := h.leases id hi
  refine ⟨o, ho.onward (fun ht => ?_) fun c hc' => ?_⟩
  · subst ht
    obtain ⟨q, hq, hx⟩ := ho
    obtain rfl := Option.some.inj (at_.symm.trans hq)
    exact ⟨pc', rfl, hl.trans hx⟩
  · subst hc'
    rw [hc]
    exact ho.1

/-- A record is reserved. -/
theorem Conserved.reserve (h : Conserved s P l) (at_ : P t = some pc) {r : RowId} (free : pc.lease = none) :
    Conserved (s.apply t (.reserve r)) (Function.update P t (some (pc.emit (.reserve r))))
      (.task t (.emit (.reserve r)) :: l) := by
  refine h.move at_ rfl rfl rfl rfl rfl (fun _ hx => hx) (fun _ _ he => by cases he) (fun _ => rfl)
    fun id hi => ?_
  rcases Finset.mem_insert.1 hi with rfl | hi
  · exact ⟨.task t, _, Function.update_self .., rfl⟩
  · obtain ⟨o, ho⟩ := h.leases id hi
    refine ⟨o, ho.onward (fun ht => ?_) fun c hc => ?_⟩
    · subst ht
      obtain ⟨q, hq, hx⟩ := ho
      obtain rfl := Option.some.inj (at_.symm.trans hq)
      cases free.symm.trans hx
    · subst hc
      exact ho.1

/-- A record is given back by its holder. -/
theorem Conserved.unreserve (h : Conserved s P l) (at_ : P t = some pc) {r : RowId}
    (mine : pc.lease = some r) :
    Conserved (s.apply t (.unreserve r)) (Function.update P t (some (pc.emit (.unreserve r))))
      (.task t (.emit (.unreserve r)) :: l) := by
  refine h.move at_ rfl rfl rfl rfl rfl (fun _ hx => hx) (fun _ _ he => by cases he) (fun _ => rfl)
    fun id hi => ?_
  obtain ⟨hne, hi⟩ := Finset.mem_erase.1 hi
  obtain ⟨o, ho⟩ := h.leases id hi
  refine ⟨o, ho.onward (fun ht => ?_) fun c hc => ?_⟩
  · subst ht
    obtain ⟨q, hq, hx⟩ := ho
    obtain rfl := Option.some.inj (at_.symm.trans hq)
    exact absurd (Option.some.inj (hx.symm.trans mine)) hne
  · subst hc
    exact ho.1

/-- A request is admitted under a number that was not used. -/
theorem Conserved.admit (h : Conserved s P l) (at_ : P t = some pc) {r n : ℕ} {key : String}
    (free : pc.key = none) (unpledged : pc.pledge = none) (new : ¬WasAdmitted r l) :
    Conserved (s.apply t (.admitted r key n)) (Function.update P t (some (pc.emit (.admitted r key n))))
      (.task t (.emit (.admitted r key n)) :: l) where
  leases id hi := h.leases_onward at_ (by rfl) (by rfl) hi
  requests k r' hr := by
    rw [unfinished_admitted] at hr
    have old : r' ∈ unfinished k l → ∃ o, Keeps (s.apply t (.admitted r key n))
        (Function.update P t (some (pc.emit (.admitted r key n))))
        (.task t (.emit (.admitted r key n)) :: l) (r', k) o := by
      intro hr
      obtain ⟨o, ho⟩ := h.requests k r' hr
      refine ⟨o, ho.onward (fun ht => ?_) fun c hc => ?_⟩
      · subst ht
        obtain ⟨q, hq, hx⟩ := ho
        obtain rfl := Option.some.inj (at_.symm.trans hq)
        cases free.symm.trans hx
      · subst hc
        exact ho.1
    split_ifs at hr with hk
    · subst hk
      rcases List.mem_cons.1 hr with rfl | hr
      · exact ⟨.task t, _, Function.update_self .., rfl⟩
      · exact old hr
    · exact old hr
  pending c hc hn := by
    have old := hc.elim.resolve_right fun ⟨_, ha⟩ => by cases ha
    refine (h.pending c old hn).onward (fun _ hx => hx) fun q hq hpl => ?_
    obtain rfl := Option.some.inj (at_.symm.trans hq)
    cases unpledged.symm.trans hpl
  known r' hr := (h.known r' hr).older
  fresh u q r' k hq hx hcl := by
    rcases eq_or_ne u t with rfl | hu
    · rw [Function.update_self] at hq
      obtain rfl := Option.some.inj hq
      obtain ⟨rfl, -⟩ := Prod.mk.inj (Option.some.inj hx)
      exact fun hm => new (h.known _ hm)
    · rw [Function.update_of_ne hu] at hq
      exact h.fresh u q r' k hq hx hcl
  apart u q c hq hpl := by
    rcases eq_or_ne u t with rfl | hu
    · rw [Function.update_self] at hq
      obtain rfl := Option.some.inj hq
      cases unpledged.symm.trans hpl
    · rw [Function.update_of_ne hu] at hq
      exact h.apart u q c hq hpl

/-- A request is dismissed by the task that holds it. -/
theorem Conserved.dismiss {s : World} {l : List LogItem} {t : ℕ} {pc : Pc} (h : Conserved s (pcAt l) l)
    (ha : Admitting s (pcAt l) l) (at_ : pcAt l t = some pc) {r : ℕ} {key : String}
    (mine : pc.key = some (r, key)) :
    Conserved (s.apply t (.dismiss key)) (Function.update (pcAt l) t (some (pc.emit (.dismiss key))))
      (.task t (.emit (.dismiss key)) :: l) where
  leases id hi := h.leases_onward at_ (by rfl) (by rfl) hi
  requests k r' hr := by
    rw [unfinished_dismiss k at_ mine] at hr
    have old : r' ∈ unfinished k l := by
      split_ifs at hr
      · exact List.mem_of_mem_erase hr
      · exact hr
    obtain ⟨o, ho⟩ := h.requests k r' old
    refine ⟨o, ho.onward (fun ht => ?_) fun c hc => ?_⟩
    · subst ht
      obtain ⟨q, hq, hx⟩ := ho
      obtain rfl := Option.some.inj (at_.symm.trans hq)
      obtain ⟨rfl, rfl⟩ := Prod.mk.inj (Option.some.inj (mine.symm.trans hx))
      rw [if_pos rfl] at hr
      exact absurd hr (ha.distinct key).not_mem_erase
    · subst hc
      exact ho.1
  pending c hc hn := by
    have old := hc.elim.resolve_right fun ⟨_, ha⟩ => by cases ha
    refine (h.pending c old hn).onward (fun _ hx => hx) fun q hq hpl => ?_
    obtain rfl := Option.some.inj (at_.symm.trans hq)
    exact ⟨_, rfl, hpl⟩
  known r' hr := (h.known r' hr).older
  fresh u q r' k hq hx hcl := by
    rcases eq_or_ne u t with rfl | hu
    · rw [Function.update_self] at hq
      obtain rfl := Option.some.inj hq
      cases hx
    · rw [Function.update_of_ne hu] at hq
      exact h.fresh u q r' k hq hx hcl
  apart u q c hq hpl := by
    rcases eq_or_ne u t with rfl | hu
    · rw [Function.update_self] at hq
      obtain rfl := Option.some.inj hq
      exact ⟨rfl, (h.apart u pc c at_ hpl).2⟩
    · rw [Function.update_of_ne hu] at hq
      exact h.apart u q c hq hpl

/-- What the holder of a request says of it, no other does. -/
theorem Admitting.ne_of_keeps {o o' : Holder} {x y : ℕ × String} (h : Admitting s P l)
    (ho : Keeps s P l x o) (ho' : Keeps s P l y o') (hne : o ≠ o') : x.1 ≠ y.1 := by
  obtain ⟨r, k⟩ := x
  obtain ⟨r', k'⟩ := y
  rintro rfl
  exact hne (h.one _ _ _ _ _ ho ho')

/-- A holder has one request in hand. -/
theorem Keeps.inj {x y : ℕ × String} {o : Holder} (h : Keeps s P l x o) (h' : Keeps s P l y o) : x = y := by
  cases o with
  | task u =>
    obtain ⟨q, hq, hx⟩ := h
    obtain ⟨q', hq', hy⟩ := h'
    obtain rfl := Option.some.inj (hq.symm.trans hq')
    exact Option.some.inj (hx.symm.trans hy)
  | request c => exact h.2.2.symm.trans h'.2.2

/-- A request with a cleanup that has not begun is in its hands. -/
theorem Owns.keeps {id : RowId} {c : Cleanup} (h : Owns s P l id (.request c)) :
    Keeps s P l (c.request, c.key) (.request c) := ⟨h.1, h.2.1, rfl⟩

/-- The cleanup of a request begins, in the task that has the request in hand or in one that takes
it from the pending cleanup. -/
theorem Conserved.cleaned (h : Conserved s P l) (ha : Admitting s P l) {c : Cleanup} (o₀ : Holder)
    (at_ : P t = some pc) (mine : o₀ = .task t ∨ o₀ = .request c ∧ pc.key = none ∧ pc.lease = none)
    (holds : Keeps s P l (c.request, c.key) o₀)
    (lease : ∀ id, Owns s P l id o₀ → c.row.map Row.id = some id)
    (pledge : ∀ c', pc.pledge = some c' → c' = c) :
    Conserved (s.apply t (.cleaned c)) (Function.update P t (some (pc.emit (.cleaned c))))
      (.task t (.emit (.cleaned c)) :: l) where
  leases id hi := by
    obtain ⟨o, ho⟩ := h.leases id hi
    by_cases hne : o = o₀
    · exact ⟨.task t, _, Function.update_self .., lease id (hne ▸ ho)⟩
    refine ⟨o, ho.onward (fun ht => ?_) fun c' hc => ?_⟩
    · subst ht
      obtain ⟨q, hq, hx⟩ := ho
      obtain rfl := Option.some.inj (at_.symm.trans hq)
      rcases mine with rfl | ⟨-, -, hl⟩
      · exact absurd rfl hne
      · cases hl.symm.trans hx
    · subst hc
      exact fun hm => (Finset.mem_insert.1 hm).elim (ha.ne_of_keeps ho.keeps holds hne) ho.1
  requests k r hr := by
    obtain ⟨o, ho⟩ := h.requests k r hr
    by_cases hne : o = o₀
    · subst hne
      exact ⟨.task t, _, Function.update_self .., congrArg some (holds.inj ho)⟩
    refine ⟨o, ho.onward (fun ht => ?_) fun c' hc => ?_⟩
    · subst ht
      obtain ⟨q, hq, hx⟩ := ho
      obtain rfl := Option.some.inj (at_.symm.trans hq)
      rcases mine with rfl | ⟨-, hk, -⟩
      · exact absurd rfl hne
      · cases hk.symm.trans hx
    · subst hc
      refine fun hm => (Finset.mem_insert.1 hm).elim (fun he => ?_) ho.1
      have own : Keeps s P l (c'.request, c'.key) (.request c') := ⟨ho.1, ho.2.1, rfl⟩
      exact ha.ne_of_keeps own holds hne he
  pending c' hc hn := by
    have old := hc.elim.resolve_right fun ⟨_, ha⟩ => by cases ha
    refine (h.pending c' old fun hm => hn (Finset.mem_insert_of_mem hm)).onward (fun _ hx => hx)
      fun q hq hpl => ?_
    obtain rfl := Option.some.inj (at_.symm.trans hq)
    obtain rfl := pledge c' hpl
    exact absurd (Finset.mem_insert_self _ _) hn
  known r hr := by
    rcases Finset.mem_insert.1 hr with rfl | hr
    · exact (wasAdmitted_of_unfinished (ha.held _ _ _ holds)).older
    · exact (h.known r hr).older
  fresh u q r k hq hx hcl := by
    rcases eq_or_ne u t with rfl | hu
    · rw [Function.update_self] at hq
      obtain rfl := Option.some.inj hq
      cases hcl
    · rw [Function.update_of_ne hu] at hq
      refine fun hm => (Finset.mem_insert.1 hm).elim (fun he => ?_) (h.fresh u q r k hq hx hcl)
      have other : Keeps s P l (r, k) (.task u) := ⟨q, hq, hx⟩
      refine ha.ne_of_keeps other holds (fun ho => ?_) he
      rcases mine with rfl | ⟨rfl, -⟩
      · exact hu (Holder.task.inj ho)
      · cases ho
  apart u q c' hq hpl := by
    rcases eq_or_ne u t with rfl | hu
    · rw [Function.update_self] at hq
      obtain rfl := Option.some.inj hq
      cases hpl
    · rw [Function.update_of_ne hu] at hq
      exact h.apart u q c' hq hpl

/-- A task hands its request over to a cleanup, if it has one. -/
theorem Conserved.handOver (h : Conserved s P l) {c : Cleanup} {handle : ℕ} (at_ : P t = some pc)
    (unpledged : pc.pledge = none)
    (mine : c.request ∉ s.memory.cleaned ∧ pc.key = some (c.request, c.key) ∧
      pc.lease = c.row.map Row.id ∨ pc.key = none ∧ pc.lease = none) :
    Conserved (s.apply t (.spawn handle (.cleanup c)))
      (Function.update P t (some (pc.emit (.spawn handle (.cleanup c)))))
      (.task t (.emit (.spawn handle (.cleanup c))) :: l) where
  leases id hi := by
    obtain ⟨o, ho⟩ := h.leases id hi
    by_cases ht : o = .task t
    · subst ht
      obtain ⟨q, hq, hx⟩ := ho
      obtain rfl := Option.some.inj (at_.symm.trans hq)
      rcases mine with ⟨hn, -, hl⟩ | ⟨-, hl⟩
      · exact ⟨.request c, hn, .inl rfl, hl.symm.trans hx⟩
      · cases hl.symm.trans hx
    · refine ⟨o, ho.onward (fun h => absurd h ht) fun c' hc => ?_⟩
      subst hc
      exact ho.1
  requests k r hr := by
    obtain ⟨o, ho⟩ := h.requests k r hr
    by_cases ht : o = .task t
    · subst ht
      obtain ⟨q, hq, hx⟩ := ho
      obtain rfl := Option.some.inj (at_.symm.trans hq)
      rcases mine with ⟨hn, hk, -⟩ | ⟨hk, -⟩
      · exact ⟨.request c, hn, .inl rfl, Option.some.inj (hk.symm.trans hx)⟩
      · cases hk.symm.trans hx
    · refine ⟨o, ho.onward (fun h => absurd h ht) fun c' hc => ?_⟩
      subst hc
      exact ho.1
  pending c' hc hn := by
    rcases hc.elim with old | ⟨handle', ha⟩
    · refine (h.pending c' old hn).onward (fun _ hx => List.mem_cons_of_mem _ hx) fun q hq hpl => ?_
      obtain rfl := Option.some.inj (at_.symm.trans hq)
      cases unpledged.symm.trans hpl
    · obtain ⟨rfl, hw⟩ := Event.spawn.inj (Entry.emit.inj ha)
      obtain rfl := Work.cleanup.inj hw
      exact .inl ⟨handle, List.mem_cons_self⟩
  known r hr := (h.known r hr).older
  fresh u q r k hq hx hcl := by
    rcases eq_or_ne u t with rfl | hu
    · rw [Function.update_self] at hq
      obtain rfl := Option.some.inj hq
      cases hx
    · rw [Function.update_of_ne hu] at hq
      exact h.fresh u q r k hq hx hcl
  apart u q c' hq hpl := by
    rcases eq_or_ne u t with rfl | hu
    · rw [Function.update_self] at hq
      obtain rfl := Option.some.inj hq
      cases unpledged.symm.trans hpl
    · rw [Function.update_of_ne hu] at hq
      exact h.apart u q c' hq hpl

end Steps

/-- What is known of a run in which nothing leaks. -/
structure Accounted (s : World) (l : List LogItem) : Prop where
  pledges : Pledges s (pcAt l) l
  admitting : Admitting s (pcAt l) l
  drawn : Drawn (fun l n => WasAdmitted n l) s l
  leakless : Leakless l

/-- An event that is in order keeps the invariant. -/
theorem Conserved.emit {s : World} {l : List LogItem} {t : ℕ} {pc : Pc} {e : Event}
    (h : Conserved s (pcAt l) l) (known : Accounted s l) (at_ : pcAt l t = some pc)
    (ok : EventOk cfg pc s e) (he : e.holding = true) :
    Conserved (s.apply t e) (Function.update (pcAt l) t (some (pc.emit e))) (.task t (.emit e) :: l) := by
  cases e with
  | reserve r => exact h.reserve at_ ok.2.1
  | unreserve r => exact h.unreserve at_ ok
  | admitted r key n => exact h.admit at_ ok.2.1 ok.2.2.2.1 (known.drawn.drawn t pc at_ r ok.1).2
  | dismiss key =>
    obtain ⟨r, hk, -⟩ := ok
    exact h.dismiss known.admitting at_ hk
  | cleaned c =>
    obtain ⟨new, -, ⟨hk, hl⟩ | ⟨hc, hk, hl⟩⟩ := ok
    · refine h.cleaned known.admitting (.task t) at_ (.inl rfl) ⟨pc, at_, hk⟩ (fun id ho => ?_)
        fun c' hp => ?_
      · obtain ⟨q, hq, hx⟩ := ho
        obtain rfl := Option.some.inj (at_.symm.trans hq)
        exact hl.symm.trans hx
      · cases hk.symm.trans (h.apart t pc c' at_ hp).1
    · have entrusted : Entrusted l c := by
        rcases hc with hc | ⟨handle, -, hc⟩
        · exact known.pledges.pledged t pc c at_ hc
        · exact known.pledges.joined t pc handle c at_ hc
      refine h.cleaned known.admitting (.request c) at_ (.inr ⟨rfl, hk, hl⟩)
        ⟨new, entrusted, rfl⟩ (fun id ho => ho.2.2) fun c' hp => ?_
      rcases hc with hc | ⟨handle, -, hc⟩
      · exact Option.some.inj (hp.symm.trans hc)
      · cases hc.symm.trans (h.apart t pc c' at_ hp).2
  | spawn handle w =>
    cases w with
    | cleanup c =>
      obtain ⟨-, hcl, hp, ⟨hk, hl⟩ | ⟨-, hk, hl⟩⟩ := ok
      · exact h.handOver at_ hp (.inl ⟨h.fresh t pc _ _ at_ hk hcl, hk, hl⟩)
      · exact h.handOver at_ hp (.inr ⟨hk, hl⟩)
    | _ =>
      exact h.move at_ rfl rfl rfl rfl rfl (fun _ hx => List.mem_cons_of_mem _ hx)
        (fun _ _ he => by cases he) (fun _ => rfl)
        fun id hi => h.leases_onward at_ (by rfl) (by rfl) hi
  | maintenance on =>
    cases on
    all_goals
      exact h.move at_ rfl rfl rfl rfl rfl (fun _ hx => hx) (fun _ _ he => by cases he)
        (fun _ => rfl) fun id hi => h.leases_onward at_ (by rfl) (by rfl) hi
  | lock | unlock | wait | unwait =>
    exact h.move at_ rfl rfl rfl rfl rfl (fun _ hx => hx) (fun _ _ he => by cases he)
      (fun _ => rfl) fun id hi => h.leases_onward at_ (by rfl) (by rfl) hi
  | _ => cases he

/-- Before the first task, and after a crash, nothing is held. -/
theorem Conserved.idle (s : World) (l : List LogItem) (ha : s.memory.active = ∅)
    (hc : s.memory.cleaned = ∅) (hu : ∀ k, unfinished k l = []) (he : ∀ c, ¬Entrusted l c) :
    Conserved s (fun _ => none) l where
  leases id hi := by
    rw [ha] at hi
    exact absurd hi (Finset.notMem_empty id)
  requests k r hr := by
    rw [hu] at hr
    cases hr
  pending c hc' _ := absurd hc' (he c)
  known r hr := by
    rw [hc] at hr
    exact absurd hr (Finset.notMem_empty r)
  fresh _ _ _ _ hq := by cases hq
  apart _ _ _ hq := by cases hq

/-- A task that starts keeps it. -/
theorem Conserved.begin {s s' : World} {l : List LogItem} {t : ℕ} {p : Program}
    (h : Conserved s (pcAt l) l) (fresh : pcAt l t = none) (may : s.begin t p = some s') :
    Conserved s' (Function.update (pcAt l) t (some (Pc.enter p))) (.task t (.start p) :: l) := by
  have hm := memory_begin may
  have cleaned : s'.memory.cleaned = s.memory.cleaned := hm.2.2.2.2.1
  refine ⟨fun id hi => ?_, fun k r hr => ?_, fun c hc hn => ?_, fun r hr => ?_,
    fun u q r k hq hx hcl => ?_, fun u q c hq hpl => ?_⟩
  · rw [hm.2.1] at hi
    obtain ⟨o, ho⟩ := h.leases id hi
    refine ⟨o, ho.onward (fun ht => ?_) fun c hc => ?_⟩
    · subst ht
      obtain ⟨q, hq, -⟩ := ho
      cases fresh.symm.trans hq
    · subst hc
      rw [cleaned]
      exact ho.1
  · obtain ⟨o, ho⟩ := h.requests k r hr
    refine ⟨o, ho.onward (fun ht => ?_) fun c hc => ?_⟩
    · subst ht
      obtain ⟨q, hq, -⟩ := ho
      cases fresh.symm.trans hq
    · subst hc
      rw [cleaned]
      exact ho.1
  · rw [cleaned] at hn
    have old := hc.elim.resolve_right fun ⟨_, ha⟩ => by cases ha
    have mine : ∀ pc, pcAt l t = some pc → pc.pledge = some c →
        ∃ pc', some (Pc.enter p) = some pc' ∧ pc'.pledge = some c :=
      fun pc hpc _ => by cases fresh.symm.trans hpc
    rcases h.pending c old hn with ⟨handle, hh⟩ | pledged
    · rcases spawned_begin may with ⟨handle', w, rfl, -, hs⟩ | ⟨-, hs⟩
      · by_cases he : (handle, Work.cleanup c) = (handle', w)
        · obtain ⟨rfl, rfl⟩ := Prod.mk.inj he
          exact .inr ⟨t, _, Function.update_self .., rfl⟩
        · refine .inl ⟨handle, ?_⟩
          rw [hs]
          exact (List.mem_erase_of_ne he).2 hh
      · exact .inl ⟨handle, hs ▸ hh⟩
    · obtain ⟨u, pc, hpc, hp⟩ := pledged
      refine .inr ⟨u, pc, (Function.update_of_ne ?_ ..).trans hpc, hp⟩
      rintro rfl
      cases fresh.symm.trans hpc
  · exact (h.known r (cleaned ▸ hr)).older
  · rw [cleaned]
    rcases eq_or_ne u t with rfl | hu
    · rw [Function.update_self] at hq
      obtain rfl := Option.some.inj hq
      cases (Pc.enter_holds p).2.2.2.1.symm.trans hx
    · rw [Function.update_of_ne hu] at hq
      exact h.fresh u q r k hq hx hcl
  · rcases eq_or_ne u t with rfl | hu
    · rw [Function.update_self] at hq
      obtain rfl := Option.some.inj hq
      exact ⟨(Pc.enter_holds p).2.2.2.1, (Pc.enter_holds p).2.2.2.2.2.1⟩
    · rw [Function.update_of_ne hu] at hq
      exact h.apart u q c hq hpl

/-- A task that ends and does not leak has nothing in hand. -/
theorem Conserved.stop {s : World} {l : List LogItem} {t : ℕ} {pc : Pc} (h : Conserved s (pcAt l) l)
    (at_ : pcAt l t = some pc) (ok : Settled pc s) (leakless : pc.leaks = false) :
    Conserved s (Function.update (pcAt l) t none) (.task t .stop :: l) := by
  obtain ⟨hl, hk⟩ : pc.lease = none ∧ pc.key = none := by
    rcases ok.free with hleak | free | ⟨r, k, hk, hr⟩
    · cases leakless.symm.trans hleak
    · exact free
    · exact absurd hr (h.fresh t pc r k at_ hk ok.cleaning)
  refine ⟨fun id hi => ?_, fun k r hr => ?_, fun c hc hn => ?_, fun r hr => (h.known r hr).older,
    fun u q r k hq hx hcl => ?_, fun u q c hq hpl => ?_⟩
  · obtain ⟨o, ho⟩ := h.leases id hi
    refine ⟨o, ho.onward (fun ht => ?_) fun c hc => ?_⟩
    · subst ht
      obtain ⟨q, hq, hx⟩ := ho
      obtain rfl := Option.some.inj (at_.symm.trans hq)
      cases hl.symm.trans hx
    · subst hc
      exact ho.1
  · obtain ⟨o, ho⟩ := h.requests k r hr
    refine ⟨o, ho.onward (fun ht => ?_) fun c hc => ?_⟩
    · subst ht
      obtain ⟨q, hq, hx⟩ := ho
      obtain rfl := Option.some.inj (at_.symm.trans hq)
      cases hk.symm.trans hx
    · subst hc
      exact ho.1
  · have old := hc.elim.resolve_right fun ⟨_, ha⟩ => by cases ha
    refine (h.pending c old hn).onward (fun _ hx => hx) fun q hq hpl => ?_
    obtain rfl := Option.some.inj (at_.symm.trans hq)
    exact absurd (ok.pledge c hpl) hn
  · rcases eq_or_ne u t with rfl | hu
    · rw [Function.update_self] at hq
      cases hq
    · rw [Function.update_of_ne hu] at hq
      exact h.fresh u q r k hq hx hcl
  · rcases eq_or_ne u t with rfl | hu
    · rw [Function.update_self] at hq
      cases hq
    · rw [Function.update_of_ne hu] at hq
      exact h.apart u q c hq hpl

/-- **Every unfinished request has a task to finish it**, in every run. -/
theorem tracked_conserved (hC : ∀ {s l x}, C s l x → Accounted s l) : Tracked cfg C Conserved where
  init {s} h := by
    obtain ⟨_, _, rfl⟩ := h
    exact .idle _ _ rfl rfl (fun _ => rfl) fun _ h => h
  start h fresh may _ := h.begin fresh may
  emit h at_ ok c he := h.emit (hC c) at_ ok he
  still {s s' t pc pc' a l} h at_ hs hpc ha _ := by
    refine h.move at_ hpc.key hpc.cleaning hpc.pledge hpc.entrusted hs.cleaned
      (fun _ hx => hs.spawned ▸ hx) (fun handle c he => ?_)
      (fun k => unfinished_task (fun r n he => ?_) fun he => ?_) fun id hi => ?_
    · cases ha _ he
    · cases ha _ he
    · cases ha _ he
    · exact h.leases_onward at_ hpc.lease hs.cleaned (hs.active ▸ hi)
  stop h at_ ok c := h.stop at_ ok ((hC c).leakless _ _ at_)
  drift {s d l} h := by
    refine ⟨fun id hi => ?_, fun k r hr => ?_, h.pending, h.known, h.fresh, h.apart⟩
    · obtain ⟨o, ho⟩ := h.leases id hi
      refine ⟨o, ?_⟩
      cases o with
      | _ => exact ho
    · obtain ⟨o, ho⟩ := h.requests k r hr
      refine ⟨o, ?_⟩
      cases o with
      | _ => exact ho
  crash _ := .idle _ _ rfl rfl (fun _ => rfl) fun _ h => h

/-! ### The queue -/

/-- The tasks in the queue are under way, each in one place. -/
structure Waiting (P : ℕ → Option Pc) (l : List LogItem) : Prop where
  once : (queueing l).Nodup
  waits : ∀ t ∈ queueing l, ∃ pc, P t = some pc ∧ pc.waits = true

/-- A step that leaves the queue keeps the invariant. -/
theorem Waiting.update {P : ℕ → Option Pc} {l l' : List LogItem} {t : ℕ} {v : Option Pc}
    (h : Waiting P l) (hl : queueing l' = queueing l)
    (hv : ∀ pc, P t = some pc → pc.waits = true → ∃ pc', v = some pc' ∧ pc'.waits = true) :
    Waiting (Function.update P t v) l' where
  once := by rw [hl]; exact h.once
  waits u hu := by
    rw [hl] at hu
    obtain ⟨pc, hpc, hw⟩ := h.waits u hu
    rcases eq_or_ne u t with rfl | hne
    · obtain ⟨pc', rfl, hw'⟩ := hv pc hpc hw
      exact ⟨pc', Function.update_self .., hw'⟩
    · exact ⟨pc, (Function.update_of_ne hne ..).trans hpc, hw⟩

/-- An event that is in order keeps it. -/
theorem Waiting.emit {s : World} {l : List LogItem} {t : ℕ} {pc : Pc} {e : Event}
    (h : Waiting (pcAt l) l) (at_ : pcAt l t = some pc) (ok : EventOk cfg pc s e) :
    Waiting (Function.update (pcAt l) t (some (pc.emit e))) (.task t (.emit e) :: l) := by
  by_cases hw : e = .wait
  · subst hw
    refine ⟨List.nodup_cons.2 ⟨fun hm => ?_, h.once⟩, fun u hu => ?_⟩
    · obtain ⟨q, hq, hqw⟩ := h.waits t hm
      obtain rfl := Option.some.inj (at_.symm.trans hq)
      cases ok.1.symm.trans hqw
    · rcases List.mem_cons.1 hu with rfl | hu
      · exact ⟨_, Function.update_self .., rfl⟩
      · obtain ⟨q, hq, hqw⟩ := h.waits u hu
        rcases eq_or_ne u t with rfl | hne
        · exact ⟨_, Function.update_self .., rfl⟩
        · exact ⟨q, (Function.update_of_ne hne ..).trans hq, hqw⟩
  by_cases hu : e = .unwait
  · subst hu
    refine ⟨h.once.erase t, fun u hu => ?_⟩
    obtain ⟨hne, hm⟩ := h.once.mem_erase_iff.1 hu
    obtain ⟨q, hq, hqw⟩ := h.waits u hm
    exact ⟨q, (Function.update_of_ne hne ..).trans hq, hqw⟩
  refine h.update (queueing_task (fun hx => hw (Entry.emit.inj hx)) fun hx => hu (Entry.emit.inj hx))
    fun q hq hqw => ?_
  obtain rfl := Option.some.inj (at_.symm.trans hq)
  exact ⟨_, rfl, (waits_emit pc hw hu).trans hqw⟩

/-- **Who is in the queue waits**, in every run without leaks. -/
theorem tracked_waiting (hC : ∀ {s l x}, C s l x → Leakless l) :
    Tracked cfg C fun _ P l => Waiting P l where
  init _ := ⟨.nil, fun _ h => by cases h⟩
  start h fresh _ _ := h.update rfl fun _ hq _ => by cases fresh.symm.trans hq
  emit h at_ ok _ _ := h.emit at_ ok
  still {s s' t pc pc' a l} h at_ hs hpc ha _ := by
    refine h.update (queueing_task (fun hx => ?_) fun hx => ?_) fun q hq hw => ?_
    · cases ha _ hx
    · cases ha _ hx
    · obtain rfl := Option.some.inj (at_.symm.trans hq)
      exact ⟨pc', rfl, hpc.waits.trans hw⟩
  stop {s t pc l} h at_ ok c := by
    refine h.update rfl fun q hq hw => ?_
    obtain rfl := Option.some.inj (at_.symm.trans hq)
    rcases ok.waits with hl | hn
    · cases ((hC c) t pc at_).symm.trans hl
    · cases hn.symm.trans hw
  drift h := ⟨h.once, h.waits⟩
  crash _ := ⟨.nil, fun _ h => by cases h⟩

/-- A cleanup that has not begun was handed over. -/
theorem Pledges.entrusted {s : World} {P : ℕ → Option Pc} {l : List LogItem} (h : Pledges s P l)
    {c : Cleanup} (hu : Unbegun s P c) : Entrusted l c := by
  rcases hu with ⟨handle, hh⟩ | ⟨t, pc, hpc, hp⟩
  · exact h.queued handle c hh
  · exact h.pledged t pc c hpc hp

/-- **Every run in which releases succeed conserves what is held.** -/
theorem Run.conserved {s : World} {P : ℕ → Option Pc} {run : Option ℕ} {l : List LogItem}
    (tr : Run cfg ReleasesSucceed s P run l) :
    Accounted s l ∧ Conserved s (pcAt l) l ∧ Waiting (pcAt l) l := by
  have accounted : ∀ {s P run l}, Run cfg ReleasesSucceed s P run l → Accounted s l := fun tr =>
    ⟨tracked_pledges.run tr, tr.admitting, tr.admittedOnce, (maintained_leakless id).traj tr⟩
  have known := Traj.knowing (I := Accounted) accounted tr
  exact ⟨accounted tr, (tracked_conserved fun c => c.2).run known,
    (tracked_waiting fun c => c.2.leakless).run known⟩

/-- **While releases succeed, the unfinished requests of a key are those somebody serves**, and
they are what its count says. -/
theorem Run.served {s : World} {P : ℕ → Option Pc} {run : Option ℕ} {l : List LogItem}
    (tr : Run cfg ReleasesSucceed s P run l) (key : String) :
    s.memory.keyActive key = (unfinished key l).length ∧ (unfinished key l).Nodup ∧
      ∀ r, r ∈ unfinished key l ↔ Served s l r key := by
  obtain ⟨known, h, -⟩ := Run.conserved tr
  refine ⟨known.admitting.active key, known.admitting.distinct key, fun r => ⟨fun hr => ?_, fun hr => ?_⟩⟩
  · obtain ⟨o, ho⟩ := h.requests key r hr
    cases o with
    | task t => exact .inl ⟨t, ho⟩
    | request c => exact .inr ⟨c, ho.2.2, ho.1, h.pending c ho.2.1 ho.1⟩
  · rcases hr with ⟨t, ho⟩ | ⟨c, hc, hn, hu⟩
    · exact known.admitting.held r key (.task t) ho
    · exact known.admitting.held r key (.request c) ⟨hn, known.pledges.entrusted hu, hc⟩

/-- **Nothing leaks.**  However requests end (served, failed, cancelled at any await, streamed to
the end or cut) a session is leased exactly while somebody under way has it in hand or a cleanup
is to give it back, and the same holds of what counts against the limit of a key. -/
theorem leaksNothing (cfg : Config) : Ensures cfg ReleasesSucceed LeaksNothing := by
  refine joinsWithRoom.knowing (Ensures.always fun {s P run l} tr => ?_)
  have releasing : Run cfg ReleasesSucceed s P run l := Traj.mono (fun _ _ _ c => c.1) tr
  obtain ⟨known, h, waiting⟩ := Run.conserved releasing
  have leased := tr.leased
  have queued := (tracked_queue fun c => c.2).run tr
  refine ⟨fun id => ⟨fun hi => ?_, fun hi => ?_⟩, releasing.served, tracked_locks.run tr,
    queued.counted, waiting.once, fun t => ⟨waiting.waits t, ?_⟩⟩
  · obtain ⟨o, ho⟩ := h.leases id hi
    cases o with
    | task t => exact .inl ⟨t, ho⟩
    | request c => exact .inr ⟨c, ho.2.2, ho.1, h.pending c ho.2.1 ho.1⟩
  · rcases hi with ⟨t, ho⟩ | ⟨c, hc, hn, hu⟩
    · exact leased.active id (.task t) ho
    · exact leased.active id (.request c) ⟨hn, known.pledges.entrusted hu, hc⟩
  · rintro ⟨pc, hpc, hw⟩
    exact queued.joined t pc hpc hw

/-- Whoever is careful gives back what it holds. -/
theorem releasesSucceed_of_careful {s : World} {l : List LogItem} {x : LogItem}
    (h : careful s l x = true) : ReleasesSucceed s l x := by
  unfold ReleasesSucceed
  split
  · exact careful_toss h
  · trivial

/-- A request is dispatched while it holds its lease. -/
theorem leaksNothing_day : Exhibits {} ReleasesSucceed LeaksNothing Sample.dispatches :=
  (leaksNothing {}).exhibit
    (Sample.day_exhibits (fun _ _ _ => releasesSucceed_of_careful) (by simp))

end MorpheusGateway
