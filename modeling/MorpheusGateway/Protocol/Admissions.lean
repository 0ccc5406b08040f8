/-
# Admitted chat requests

The log tells when the requests of a key were admitted (`admissions`) and which of them are
unfinished (`unfinished`): admitted, and not yet given up by the one that cleans up after
them.  The memory has only a bucket of times and a count for each key.

`Admitting` says that the count is right.  An unfinished request is held by the task that
serves it, then perhaps by the cleanup it hands over and by the task that runs that, and
never by two at a time, so that it is given up once.  `Bucketed` says that the bucket is
what is left of the times.
-/

import MorpheusGateway.Protocol.Numbering
import MorpheusGateway.Window
import Mathlib.Algebra.Order.Ring.Rat

namespace MorpheusGateway

open Contract

variable {cfg : Config} {C : ItemRule}

/-! ### What the log tells of the requests of a key -/

/-- When the requests of the key were admitted since the last crash, oldest first, by the
clock that shows `now` after the log. -/
def admissions (key : String) : ℚ → List LogItem → List ℚ
  | _, [] | _, .crash :: _ => []
  | now, .drift d :: l => admissions key (now - d.monotonic) l
  | now, .task _ (.emit (.rate k)) :: l =>
      if k = key then admissions key now l ++ [now] else admissions key now l
  | now, .task _ _ :: l => admissions key now l

/-- The requests of the key that were admitted since the last crash and are unfinished,
newest first. -/
def unfinished (key : String) : List LogItem → List ℕ
  | [] | .crash :: _ => []
  | .task t (.emit e) :: l => match e with
    | .admitted r k _ => if k = key then r :: unfinished key l else unfinished key l
    | .dismiss k => if k = key then
        match (pcAt l t).bind Pc.key with
        | some (r, _) => (unfinished key l).erase r
        | none => unfinished key l
      else unfinished key l
    | _ => unfinished key l
  | .task _ _ :: l | .drift _ :: l => unfinished key l

/-- Only admitting and dismissing change the unfinished requests of a key. -/
theorem unfinished_task {key : String} {t : ℕ} {a : LogEntry} {l : List LogItem}
    (ha : ∀ r n, a ≠ .emit (.admitted r key n)) (hd : a ≠ .emit (.dismiss key)) :
    unfinished key (.task t a :: l) = unfinished key l := by
  cases a with
  | emit e =>
    cases e with
    | admitted r k n =>
      refine if_neg ?_
      rintro rfl
      exact ha r n rfl
    | dismiss k =>
      refine if_neg ?_
      rintro rfl
      exact hd rfl
    | _ => rfl
  | _ => rfl

/-- An admitted request is unfinished. -/
theorem unfinished_admitted (k key : String) (r n t : ℕ) (l : List LogItem) :
    unfinished k (.task t (.emit (.admitted r key n)) :: l) =
      if key = k then r :: unfinished k l else unfinished k l := rfl

/-- A dismissed one is no longer. -/
theorem unfinished_dismiss (k : String) {key : String} {t r : ℕ} {pc : Pc} {l : List LogItem}
    (at_ : pcAt l t = some pc) (hk : pc.key = some (r, key)) :
    unfinished k (.task t (.emit (.dismiss key)) :: l) =
      if key = k then (unfinished k l).erase r else unfinished k l := by
  rw [unfinished, at_, Option.bind_some, hk]

/-! ### Numbers are used once -/

/-- The numbers that the log uses are old, and one that was drawn is not among them. -/
structure Drawn (used : List LogItem → ℕ → Prop) (s : World) (l : List LogItem) : Prop where
  below : ∀ n, used l n → n < s.uuids
  drawn : ∀ t pc, pcAt l t = some pc → ∀ n, pc.uuid = some n → n < s.uuids ∧ ¬used l n

/-- A step that uses no new number keeps the invariant. -/
theorem Drawn.move {used : List LogItem → ℕ → Prop} {s s' : World} {l : List LogItem} {t : ℕ}
    {a : LogEntry} (h : Drawn used s l) (hu : ∀ n, used (.task t a :: l) n → used l n)
    (hs : s.uuids ≤ s'.uuids)
    (hpc : ∀ pc', (protocol {}).advance a (pcAt l t) = some pc' → ∀ n, pc'.uuid = some n →
      (∃ pc, pcAt l t = some pc ∧ pc.uuid = some n) ∨ n = s.uuids ∧ s.uuids < s'.uuids) :
    Drawn used s' (.task t a :: l) where
  below n hn := (h.below n (hu n hn)).trans_le hs
  drawn := by
    refine forall_pcAt (fun pc' hpc' n hn => ?_) fun u q _ hq n hn => ?_
    · rcases hpc pc' hpc' n hn with ⟨pc, at_, hd⟩ | ⟨rfl, hlt⟩
      · exact ⟨(h.drawn t pc at_ n hd).1.trans_le hs, fun hd' => (h.drawn t pc at_ n hd).2 (hu n hd')⟩
      · exact ⟨hlt, fun hd => (h.below _ (hu _ hd)).false⟩
    · exact ⟨(h.drawn u q hq n hn).1.trans_le hs, fun hd => (h.drawn u q hq n hn).2 (hu n hd)⟩

/-- **What an entry uses was drawn for it.**  Then no number is used twice. -/
theorem maintained_drawn {used : List LogItem → ℕ → Prop}
    (hC : ∀ {s l x}, C s l x → QuietedItem s l x) (nil : ∀ n, ¬used [] n)
    (crash : ∀ l n, ¬used (.crash :: l) n) (drift : ∀ d l n, used (.drift d :: l) n → used l n)
    (step : ∀ {t a l n}, used (.task t a :: l) n → used l n ∨
      ∃ e, a = .emit e ∧ ∀ pc s, EventOk cfg pc s e →
        pc.uuid = some n ∧ (pc.emit e).uuid = none ∧ (s.apply t e).uuids = s.uuids) :
    Maintained (gateway cfg) (protocol cfg) Installed C (Drawn used) where
  init _ := ⟨fun n hn => absurd hn (nil n), fun _ _ hpc => (nomatch hpc)⟩
  start {s t p s' l} h _ may _ := by
    refine h.move (fun n hn => ?_) (memory_begin (t := t) may).2.2.2.2.2.2.ge fun pc' hpc' n hn => ?_
    · rcases step hn with hn | ⟨e, he, -⟩
      · exact hn
      · cases he
    · obtain rfl := Option.some.inj hpc'
      exact nomatch (Pc.enter_numbers p).1.symm.trans hn
  wake {s t pc i r l} h at_ _ _ _ := by
    rw [point_protocol] at at_
    refine h.move (fun n hn => ?_) le_rfl fun pc' hpc' n hn => ?_
    · rcases step hn with hn | ⟨e, he, -⟩
      · exact hn
      · cases he
    · rw [at_] at hpc'
      obtain rfl := Option.some.inj hpc'
      cases hn
  emit {s t pc e l} h at_ ok c := by
    rw [point_protocol] at at_
    have ok : EventOk cfg pc s e := ok
    by_cases hused : ∃ n, used (.task t (.emit e) :: l) n ∧ ¬used l n
    · -- The event uses the number that its task has drawn; nobody else has drawn one.
      obtain ⟨n, hn, new⟩ := hused
      obtain ⟨_, he, hd⟩ := (step hn).resolve_left new
      obtain rfl := Entry.emit.inj he
      obtain ⟨hn, hnone, hs⟩ := hd pc s ok
      have hu : ∀ m, used (.task t (.emit e) :: l) m → used l m ∨ m = n := by
        intro m hm
        refine (step hm).imp_right fun ⟨_, he, hd⟩ => ?_
        obtain rfl := Entry.emit.inj he
        exact Option.some.inj ((hd pc s ok).1.symm.trans hn)
      have hlt := (h.drawn t pc at_ n hn).1
      refine ⟨fun m hm => ?_, forall_pcAt (fun pc' hpc' m hm => ?_) fun u q hne hq m hm => ?_⟩
      · rw [gateway_apply, hs]
        rcases hu m hm with hm | rfl
        · exact h.below m hm
        · exact hlt
      · rw [at_] at hpc'
        obtain rfl := Option.some.inj hpc'
        exact nomatch hnone.symm.trans hm
      · exact nomatch ((hC c).1 u q hne hq).1.symm.trans hm
    · have hu : ∀ n, used (.task t (.emit e) :: l) n → used l n := fun n hn =>
        by_contra fun hne => hused ⟨n, hn, hne⟩
      have hs := (tasks_apply s t e).2.2
      refine h.move hu ?_ fun pc' hpc' n hn => ?_
      · rcases hs with ⟨hs, -⟩ | ⟨n, rfl⟩
        · exact hs.ge
        · exact Nat.le_succ _
      · rw [at_] at hpc'
        obtain rfl := Option.some.inj hpc'
        rcases pc.uuid_emit e with he | he | ⟨m, rfl, he⟩
        · exact .inl ⟨pc, at_, he.symm.trans hn⟩
        · exact nomatch he.symm.trans hn
        · obtain rfl := Option.some.inj (he.symm.trans hn)
          exact .inr ⟨ok, Nat.lt_succ_self _⟩
  toss {s t pc q b l} h at_ _ := by
    rw [point_protocol] at at_
    refine h.move (fun n hn => ?_) le_rfl fun pc' hpc' n hn => ?_
    · rcases step hn with hn | ⟨e, he, -⟩
      · exact hn
      · cases he
    · rw [at_] at hpc'
      obtain rfl := Option.some.inj hpc'
      exact .inl ⟨pc, at_, (task_toss pc q b).2.1.symm.trans hn⟩
  park {s t pc i l} h at_ _ _ := by
    rw [point_protocol] at at_
    refine h.move (fun n hn => ?_) le_rfl fun pc' hpc' n hn => ?_
    · rcases step hn with hn | ⟨e, he, -⟩
      · exact hn
      · cases he
    · rw [at_] at hpc'
      obtain rfl := Option.some.inj hpc'
      cases hn
  stop {s t pc l} h _ _ _ := by
    refine h.move (fun n hn => ?_) le_rfl fun _ hpc' => (nomatch hpc')
    rcases step hn with hn | ⟨e, he, -⟩
    · exact hn
    · cases he
  drift {s d l} h _ := ⟨fun n hn => h.below n (drift d l n hn), fun t pc hpc n hn =>
    ⟨(h.drawn t pc hpc n hn).1, fun hd => (h.drawn t pc hpc n hn).2 (drift d l n hd)⟩⟩
  crash {s l} _ _ := ⟨fun n hn => absurd hn (crash l n), fun _ _ hpc => (nomatch hpc)⟩

/-- The unfinished requests are numbered. -/
theorem Run.drawn {s : World} {P : ℕ → Option Pc} {run : Option ℕ} {l : List LogItem}
    (tr : Run cfg C s P run l) : Drawn (fun l n => ∃ k, n ∈ unfinished k l) s l := by
  refine (maintained_drawn (C := fun s l x => C s l x ∧ QuietedItem s l x) (fun c => c.2)
    (fun n ⟨k, hk⟩ => (nomatch hk)) (fun l n ⟨k, hk⟩ => (nomatch hk)) (fun d l n h => h)
    fun {t a l n} ⟨k, hk⟩ => ?_).traj (Run.quieted tr)
  by_cases ha : ∃ r m, a = .emit (.admitted r k m)
  · obtain ⟨r, m, rfl⟩ := ha
    rw [unfinished_admitted, if_pos rfl] at hk
    rcases List.mem_cons.1 hk with rfl | hk
    · exact .inr ⟨_, rfl, fun pc s ok => ⟨ok.1, rfl, rfl⟩⟩
    · exact .inl ⟨k, hk⟩
  by_cases hd : a = .emit (.dismiss k)
  · subst hd
    refine .inl ⟨k, ?_⟩
    rw [unfinished, if_pos rfl] at hk
    split at hk
    · exact List.mem_of_mem_erase hk
    · exact hk
  · rw [unfinished_task (fun r m he => ha ⟨r, m, he⟩) hd] at hk
    exact .inl ⟨k, hk⟩

/-! ### Who holds a request -/

/-- The request number `x.1` of the key `x.2` is held: by the task that serves it or cleans
up after it, or by a cleanup that has not begun. -/
def Keeps (s : World) (P : ℕ → Option Pc) (l : List LogItem) (x : ℕ × String) : Holder → Prop
  | .task t => ∃ pc, P t = some pc ∧ pc.key = some x
  | .request c => c.request ∉ s.memory.cleaned ∧ Entrusted l c ∧ (c.request, c.key) = x

/-- The count of a key is right, and an unfinished request has at most one holder. -/
structure Admitting (s : World) (P : ℕ → Option Pc) (l : List LogItem) : Prop where
  one : ∀ r k k' o o', Keeps s P l (r, k) o → Keeps s P l (r, k') o' → o = o'
  held : ∀ r k o, Keeps s P l (r, k) o → r ∈ unfinished k l
  distinct : ∀ k, (unfinished k l).Nodup
  active : ∀ k, s.memory.keyActive k = (unfinished k l).length

/-- Who can hold a request after the task `t` moved. -/
theorem Keeps.elim {s s' : World} {P : ℕ → Option Pc} {l : List LogItem} {t : ℕ} {a : LogEntry}
    {v : Option Pc} {x : ℕ × String} {o : Holder}
    (h : Keeps s' (Function.update P t v) (.task t a :: l) x o)
    (hc : s.memory.cleaned ⊆ s'.memory.cleaned) :
    (o = .task t ∧ ∃ pc', v = some pc' ∧ pc'.key = some x) ∨
      (∃ c handle, o = .request c ∧ a = .emit (.spawn handle (.cleanup c)) ∧
        (c.request, c.key) = x ∧ c.request ∉ s'.memory.cleaned) ∨
      Keeps s P l x o ∧ o ≠ .task t ∧ ∀ c, o = .request c → c.request ∉ s'.memory.cleaned := by
  cases o with
  | task u =>
    obtain ⟨q, hq, hl⟩ := h
    rcases eq_or_ne u t with rfl | hu
    · rw [Function.update_self] at hq
      exact .inl ⟨rfl, q, hq, hl⟩
    · rw [Function.update_of_ne hu] at hq
      exact .inr (.inr ⟨⟨q, hq, hl⟩, fun e => hu (Holder.task.inj e), fun _ e => (nomatch e)⟩)
  | request c =>
    obtain ⟨hn, he, hr⟩ := h
    rcases he.elim with he | ⟨handle, rfl⟩
    · refine .inr (.inr ⟨⟨fun hm => hn (hc hm), he, hr⟩, fun e => (nomatch e), fun c' e => ?_⟩)
      obtain rfl := Holder.request.inj e
      exact hn
    · exact .inr (.inl ⟨c, handle, rfl, rfl, hr, hn⟩)

/-- The task moved without touching a request. -/
theorem Admitting.same {s s' : World} {P : ℕ → Option Pc} {l : List LogItem} {t : ℕ} {a : LogEntry}
    {v : Option Pc} (h : Admitting s P l)
    (hk : ∀ pc' x, v = some pc' → pc'.key = some x → ∃ pc, P t = some pc ∧ pc.key = some x)
    (hc : s.memory.cleaned ⊆ s'.memory.cleaned) (ha : s'.memory.keyActive = s.memory.keyActive)
    (hw : ∀ handle c, a ≠ .emit (.spawn handle (.cleanup c)))
    (hu : ∀ k, unfinished k (.task t a :: l) = unfinished k l) :
    Admitting s' (Function.update P t v) (.task t a :: l) := by
  have before : ∀ x o, Keeps s' (Function.update P t v) (.task t a :: l) x o → Keeps s P l x o := by
    intro x o ho
    rcases ho.elim hc with ⟨rfl, pc', hv, hx⟩ | ⟨c, handle, -, rfl, -⟩ | ⟨ho, -⟩
    · exact hk pc' x hv hx
    · exact absurd rfl (hw handle c)
    · exact ho
  exact ⟨fun r k k' o o' ho ho' => h.one r k k' o o' (before _ _ ho) (before _ _ ho'),
    fun r k o ho => hu k ▸ h.held r k o (before _ _ ho), fun k => hu k ▸ h.distinct k,
    fun k => by rw [hu, ha, h.active]⟩

/-- A request is admitted under a number that no other has. -/
theorem Admitting.admit {s : World} {P : ℕ → Option Pc} {l : List LogItem} {t : ℕ} {pc : Pc}
    {r n : ℕ} {key : String} (h : Admitting s P l) (fresh : ∀ k, r ∉ unfinished k l) :
    Admitting (s.apply t (.admitted r key n))
      (Function.update P t (some (pc.emit (.admitted r key n))))
      (.task t (.emit (.admitted r key n)) :: l) := by
  have who : ∀ x o, Keeps (s.apply t (.admitted r key n))
      (Function.update P t (some (pc.emit (.admitted r key n))))
      (.task t (.emit (.admitted r key n)) :: l) x o → (o = .task t ∧ x = (r, key)) ∨
        Keeps s P l x o := by
    intro x o ho
    rcases ho.elim (s := s) (fun _ h => h) with ⟨rfl, q, hq, hx⟩ | ⟨c, handle, -, ha, -⟩ | ⟨ho, -⟩
    · obtain rfl := Option.some.inj hq
      exact .inl ⟨rfl, (Option.some.inj hx).symm⟩
    · cases ha
    · exact .inr ho
  have new : ∀ k o, ¬Keeps s P l (r, k) o := fun k o ho => fresh k (h.held r k o ho)
  refine ⟨fun x k k' o o' ho ho' => ?_, fun x k o ho => ?_, fun k => ?_, fun k => ?_⟩
  · rcases who _ o ho with ⟨rfl, hx⟩ | h1
    · obtain ⟨rfl, rfl⟩ := Prod.mk.inj hx
      rcases who _ o' ho' with ⟨rfl, -⟩ | h2
      · rfl
      · exact absurd h2 (new k' o')
    · rcases who _ o' ho' with ⟨rfl, hx⟩ | h2
      · obtain ⟨rfl, rfl⟩ := Prod.mk.inj hx
        exact absurd h1 (new k o)
      · exact h.one x k k' o o' h1 h2
  · rw [unfinished_admitted]
    rcases who _ o ho with ⟨-, hx⟩ | ho
    · obtain ⟨rfl, rfl⟩ := Prod.mk.inj hx
      rw [if_pos rfl]
      exact List.mem_cons_self
    · split
      · exact List.mem_cons_of_mem _ (h.held x k o ho)
      · exact h.held x k o ho
  · rw [unfinished_admitted]
    split
    · exact List.nodup_cons.2 ⟨fresh k, h.distinct k⟩
    · exact h.distinct k
  · show Function.update s.memory.keyActive key (s.memory.keyActive key + 1) k = _
    rw [unfinished_admitted]
    rcases eq_or_ne key k with rfl | hk
    · rw [Function.update_self, if_pos rfl, h.active, List.length_cons, Int.natCast_succ]
    · rw [Function.update_of_ne hk.symm, if_neg hk, h.active]

/-- A request is given up by its holder. -/
theorem Admitting.dismiss {s : World} {l : List LogItem} {t : ℕ} {pc : Pc}
    {r : ℕ} {key : String} (h : Admitting s (pcAt l) l) (at_ : pcAt l t = some pc)
    (mine : pc.key = some (r, key)) :
    Admitting (s.apply t (.dismiss key)) (Function.update (pcAt l) t (some (pc.emit (.dismiss key))))
      (.task t (.emit (.dismiss key)) :: l) := by
  have held : Keeps s (pcAt l) l (r, key) (.task t) := ⟨pc, at_, mine⟩
  have who : ∀ x o, Keeps (s.apply t (.dismiss key))
      (Function.update (pcAt l) t (some (pc.emit (.dismiss key))))
      (.task t (.emit (.dismiss key)) :: l) x o → Keeps s (pcAt l) l x o ∧ o ≠ .task t := by
    intro x o ho
    rcases ho.elim (s := s) (fun _ h => h) with ⟨-, q, hq, hx⟩ | ⟨c, handle, -, ha, -⟩ | ⟨ho, hne, -⟩
    · obtain rfl := Option.some.inj hq
      cases hx
    · cases ha
    · exact ⟨ho, hne⟩
  refine ⟨fun x k k' o o' ho ho' => h.one x k k' o o' (who _ o ho).1 (who _ o' ho').1,
    fun x k o ho => ?_, fun k => ?_, fun k => ?_⟩
  · obtain ⟨ho, hne⟩ := who _ o ho
    have other : x ≠ r := by
      rintro rfl
      exact hne (h.one x k key o (.task t) ho held)
    rw [unfinished_dismiss k at_ mine]
    split
    · exact (List.mem_erase_of_ne other).2 (h.held x k o ho)
    · exact h.held x k o ho
  · rw [unfinished_dismiss k at_ mine]
    split
    · exact (h.distinct k).erase r
    · exact h.distinct k
  · show Function.update s.memory.keyActive key (s.memory.keyActive key - 1) k = _
    rw [unfinished_dismiss k at_ mine]
    rcases eq_or_ne key k with rfl | hk
    · have mem := h.held r key _ held
      have pos : 0 < (unfinished key l).length := List.length_pos_of_mem mem
      rw [Function.update_self, if_pos rfl, h.active, List.length_erase_of_mem mem]
      omega
    · rw [Function.update_of_ne hk.symm, if_neg hk, h.active]

/-- Requests whose holders change, each to one. -/
theorem Admitting.pass {s s' : World} {P P' : ℕ → Option Pc} {l l' : List LogItem}
    (h : Admitting s P l) (o₁ o₂ : Holder)
    (who : ∀ x o, Keeps s' P' l' x o → o = o₂ ∧ Keeps s P l x o₁ ∨ Keeps s P l x o ∧ o ≠ o₂ ∧ o ≠ o₁)
    (hu : ∀ k, unfinished k l' = unfinished k l) (ha : s'.memory.keyActive = s.memory.keyActive) :
    Admitting s' P' l' where
  one r k k' o o' ho ho' := by
    rcases who _ o ho with ⟨rfl, h1⟩ | ⟨h1, -, hne⟩
    · rcases who _ o' ho' with ⟨rfl, -⟩ | ⟨h2, -, hne'⟩
      · rfl
      · exact absurd (h.one r k' k _ _ h2 h1) hne'
    · rcases who _ o' ho' with ⟨-, h2⟩ | ⟨h2, -, -⟩
      · exact absurd (h.one r k k' _ _ h1 h2) hne
      · exact h.one r k k' o o' h1 h2
  held r k o ho := by
    rw [hu]
    rcases who _ o ho with ⟨-, ho⟩ | ⟨ho, -⟩
    · exact h.held r k _ ho
    · exact h.held r k o ho
  distinct k := hu k ▸ h.distinct k
  active k := by rw [hu, ha, h.active]

/-- A request passes to the task that cleans up. -/
theorem Admitting.cleaned {s : World} {P : ℕ → Option Pc} {l : List LogItem} {t : ℕ} {pc : Pc}
    {c : Cleanup} (h : Admitting s P l) (new : c.request ∉ s.memory.cleaned) (he : Entrusted l c) :
    Admitting (s.apply t (.cleaned c)) (Function.update P t (some (pc.emit (.cleaned c))))
      (.task t (.emit (.cleaned c)) :: l) := by
  refine h.pass (.request c) (.task t) (fun x o ho => ?_) (fun _ => rfl) rfl
  rcases ho.elim (s := s) (Finset.subset_insert _ _) with
    ⟨rfl, q, hq, hx⟩ | ⟨c', handle, -, ha, -⟩ | ⟨ho, hne, hn⟩
  · obtain rfl := Option.some.inj hq
    exact .inl ⟨rfl, new, he, Option.some.inj hx⟩
  · cases ha
  · exact .inr ⟨ho, hne, fun e => hn c e (Finset.mem_insert_self _ _)⟩

/-- The request of a task passes to the cleanup it hands over. -/
theorem Admitting.handOver {s : World} {P : ℕ → Option Pc} {l : List LogItem} {t : ℕ} {pc : Pc}
    {c : Cleanup} {handle : ℕ} (h : Admitting s P l) (at_ : P t = some pc)
    (mine : pc.key = some (c.request, c.key) ∨ c.request ∈ s.memory.cleaned) :
    Admitting (s.apply t (.spawn handle (.cleanup c)))
      (Function.update P t (some (pc.emit (.spawn handle (.cleanup c)))))
      (.task t (.emit (.spawn handle (.cleanup c))) :: l) := by
  refine h.pass (.task t) (.request c) (fun x o ho => ?_) (fun _ => rfl) rfl
  rcases ho.elim (s := s) (fun _ h => h) with ⟨-, q, hq, hx⟩ | ⟨c', h', rfl, ha, hr, hn⟩ | ⟨ho, hne, hn⟩
  · obtain rfl := Option.some.inj hq
    cases hx
  · obtain ⟨-, hw⟩ := Event.spawn.inj (Entry.emit.inj ha)
    obtain rfl := Work.cleanup.inj hw
    rcases mine with hk | hm
    · exact .inl ⟨rfl, pc, at_, hk.trans (congrArg some hr)⟩
    · exact absurd hm hn
  · rcases eq_or_ne o (.request c) with rfl | hc
    · -- The same cleanup cannot have been handed over before by the holder of the request.
      rcases mine with hk | hm
      · have held : Keeps s P l (c.request, c.key) (.task t) := ⟨pc, at_, hk⟩
        exact absurd (h.one _ _ _ _ _ (ho.2.2 ▸ ho) held) hne
      · exact absurd hm (hn c rfl)
    · exact .inr ⟨ho, hc, hne⟩

/-- An event that is in order keeps the invariant. -/
theorem Admitting.emit {s : World} {l : List LogItem} {t : ℕ} {pc : Pc} {e : Event}
    (h : Admitting s (pcAt l) l) (hp : Pledges s (pcAt l) l)
    (hd : Drawn (fun l n => ∃ k, n ∈ unfinished k l) s l) (at_ : pcAt l t = some pc)
    (ok : EventOk cfg pc s e) (he : e.holding = true) :
    Admitting (s.apply t e) (Function.update (pcAt l) t (some (pc.emit e)))
      (.task t (.emit e) :: l) := by
  have same : ∀ {e'}, (pc.emit e').key = pc.key → s.memory.cleaned ⊆ (s.apply t e').memory.cleaned →
      (s.apply t e').memory.keyActive = s.memory.keyActive →
      (∀ handle c, e' ≠ .spawn handle (.cleanup c)) →
      (∀ k, unfinished k (.task t (.emit e') :: l) = unfinished k l) →
      Admitting (s.apply t e') (Function.update (pcAt l) t (some (pc.emit e')))
        (.task t (.emit e') :: l) := by
    intro e' hk hc ha hw hu
    refine h.same (fun pc' x hv hx => ⟨pc, at_, ?_⟩) hc ha (fun n c he => hw n c (Entry.emit.inj he)) hu
    obtain rfl := Option.some.inj hv
    exact hk.symm.trans hx
  cases e with
  | admitted r key n =>
    obtain ⟨hr, -⟩ := ok
    exact h.admit fun k hk => (hd.drawn t pc at_ r hr).2 ⟨k, hk⟩
  | dismiss key =>
    obtain ⟨r, hk, -⟩ := ok
    exact h.dismiss at_ hk
  | cleaned c =>
    obtain ⟨new, -, ⟨hk, -⟩ | ⟨hc, -, -⟩⟩ := ok
    · exact same hk.symm (Finset.subset_insert _ _) rfl (fun _ _ e => (nomatch e)) fun _ => rfl
    · refine h.cleaned new ?_
      rcases hc with hc | ⟨handle, -, hc⟩
      · exact hp.pledged t pc c at_ hc
      · exact hp.joined t pc handle c at_ hc
  | spawn handle w =>
    cases w with
    | cleanup c =>
      obtain ⟨-, -, -, ⟨hk, -⟩ | ⟨hc, -, -⟩⟩ := ok
      · exact h.handOver at_ (.inl hk)
      · exact h.handOver at_ (.inr hc)
    | _ => exact same rfl (fun _ h => h) rfl (fun _ _ e => (nomatch e)) fun _ => rfl
  | maintenance on =>
    cases on
    all_goals exact same rfl (fun _ h => h) rfl (fun _ _ e => (nomatch e)) fun _ => rfl
  | lock | unlock | wait | unwait | reserve | unreserve =>
    exact same rfl (fun _ h => h) rfl (fun _ _ e => (nomatch e)) fun _ => rfl
  | _ => cases he

/-- Before the first request nothing is counted. -/
theorem Admitting.idle (s : World) (l : List LogItem) (hl : ∀ k, unfinished k l = [])
    (he : ∀ c, ¬Entrusted l c) (ha : ∀ k, s.memory.keyActive k = 0) :
    Admitting s (fun _ => none) l := by
  have none : ∀ x o, ¬Keeps s (fun _ => none) l x o := by
    rintro x (u | c) ho
    · obtain ⟨_, hq, -⟩ := ho
      cases hq
    · exact he c ho.2.1
  exact ⟨fun _ _ _ _ _ ho => absurd ho (none _ _), fun _ _ _ ho => absurd ho (none _ _),
    fun k => by rw [hl]; exact List.nodup_nil, fun k => by rw [hl, ha]; rfl⟩

/-- **The counter counts the unfinished requests**, in every run. -/
theorem tracked_admitting (hC : ∀ {s l x}, C s l x → Pledges s (pcAt l) l ∧
    Drawn (fun l n => ∃ k, n ∈ unfinished k l) s l) : Tracked cfg C Admitting where
  init {s} h := by
    obtain ⟨_, _, rfl⟩ := h
    exact .idle _ _ (fun _ => rfl) (fun _ h => h) fun _ => rfl
  start {s t p s' l} h _ may _ := by
    have hm := memory_begin may
    refine h.same (fun pc' x hv hx => ?_) hm.2.2.2.2.1.ge hm.2.2.2.1 (fun _ _ e => (nomatch e)) fun _ => rfl
    obtain rfl := Option.some.inj hv
    exact nomatch (Pc.enter_holds p).2.2.2.1.symm.trans hx
  emit h at_ ok c he := h.emit (hC c).1 (hC c).2 at_ ok he
  still {s s' t pc pc' a l} h at_ hs hpc ha _ := by
    refine h.same (fun q x hv hx => ⟨pc, at_, ?_⟩) hs.cleaned.ge hs.keyActive (fun handle c e => ?_) fun k =>
      unfinished_task (fun r n e => ?_) fun e => ?_
    · obtain rfl := Option.some.inj hv
      exact hpc.key.symm.trans hx
    · cases ha _ e
    · cases ha _ e
    · cases ha _ e
  stop {s t pc l} h _ _ _ :=
    h.same (fun _ _ hv => (nomatch hv)) (fun _ h => h) rfl (fun _ _ e => (nomatch e)) fun _ => rfl
  drift {s d l} h := by
    have before : ∀ x o, Keeps (s.drift d) (pcAt l) (.drift d :: l) x o → Keeps s (pcAt l) l x o := by
      rintro x (u | c) ho
      · exact ho
      · exact ho
    exact ⟨fun r k k' o o' ho ho' => h.one r k k' o o' (before _ _ ho) (before _ _ ho'),
      fun r k o ho => h.held r k o (before _ _ ho), h.distinct, h.active⟩
  crash _ := .idle _ _ (fun _ => rfl) (fun _ h => h) fun _ => rfl

/-- **The count of every key is that of its unfinished requests.** -/
theorem Run.admitting {s : World} {P : ℕ → Option Pc} {run : Option ℕ} {l : List LogItem}
    (tr : Run cfg C s P run l) : Admitting s (pcAt l) l := by
  have known := Traj.knowing (I := fun s l => Drawn (fun l n => ∃ k, n ∈ unfinished k l) s l)
    Run.drawn (Traj.knowing (I := fun s l => Pledges s (pcAt l) l) tracked_pledges.run tr)
  exact (tracked_admitting fun c => ⟨c.1.2, c.2⟩).run known

/-! ### The buckets -/

/-- What becomes of the buckets and of the clock. -/
theorem rates_apply (s : World) (t : ℕ) {e : Event} (ht : ∀ k, e ≠ .trimRate k)
    (hr : ∀ k, e ≠ .rate k) : (s.apply t e).memory.rates = s.memory.rates := by
  cases e with
  | trimRate k => exact absurd rfl (ht k)
  | rate k => exact absurd rfl (hr k)
  | _ => rfl

/-- No event takes time. -/
theorem monotonic_apply (s : World) (t : ℕ) (e : Event) :
    (s.apply t e).monotonic = s.monotonic := by
  cases e <;> rfl

/-- A task that starts changes no bucket. -/
theorem rates_begin {s s' : World} {t : ℕ} {p : Program} (h : s.begin t p = some s') :
    s'.memory.rates = s.memory.rates ∧ s'.monotonic = s.monotonic := by
  cases p with
  | run | task =>
    simp only [World.begin] at h
    split at h
    all_goals cases h
    exact ⟨rfl, rfl⟩
  | _ =>
    simp only [World.begin] at h
    split at h
    all_goals cases h
    exact ⟨rfl, rfl⟩

/-- Only entering the bucket is an admission. -/
theorem admissions_task {key : String} {now : ℚ} {t : ℕ} {a : LogEntry} {l : List LogItem}
    (ha : a ≠ .emit (.rate key)) : admissions key now (.task t a :: l) = admissions key now l := by
  cases a with
  | emit e =>
    cases e with
    | rate k =>
      refine if_neg ?_
      rintro rfl
      exact ha rfl
    | _ => rfl
  | _ => rfl

/-- The bucket of every key is what is left of the last minute of its admissions. -/
def Bucketed (s : World) (l : List LogItem) : Prop :=
  ∀ key, Window.Kept 60 s.monotonic (admissions key s.monotonic l) (s.memory.rates key)

/-- A step that enters no bucket and takes no time keeps the invariant. -/
theorem Bucketed.same {s s' : World} {l : List LogItem} {t : ℕ} {a : LogEntry} (h : Bucketed s l)
    (ha : ∀ key, a ≠ .emit (.rate key)) (hr : s'.memory.rates = s.memory.rates)
    (hm : s'.monotonic = s.monotonic) : Bucketed s' (.task t a :: l) := by
  intro key
  rw [hr, hm, admissions_task (ha key)]
  exact h key

/-- **The bucket has the admissions of the window**, in every run. -/
theorem maintained_bucketed : Maintained (gateway cfg) (protocol cfg) Installed C Bucketed where
  init {s} h := by
    obtain ⟨_, _, rfl⟩ := h
    exact fun _ => .nil _ _
  start {s t p s' l} h _ may _ := by
    obtain ⟨hr, hm⟩ := rates_begin (t := t) may
    exact h.same (fun _ e => (nomatch e)) hr hm
  wake h _ _ _ _ := h.same (fun _ e => (nomatch e)) rfl rfl
  emit {s t pc e l} h _ _ _ := by
    by_cases ht : ∃ k, e = .trimRate k
    · obtain ⟨k, rfl⟩ := ht
      intro key
      show Window.Kept 60 s.monotonic (admissions key s.monotonic l) (Function.update s.memory.rates k _ key)
      rcases eq_or_ne key k with rfl | hk
      · rw [Function.update_self]
        exact (h key).trim
      · rw [Function.update_of_ne hk]
        exact h key
    by_cases hr : ∃ k, e = .rate k
    · obtain ⟨k, rfl⟩ := hr
      intro key
      show Window.Kept 60 s.monotonic (if k = key then _ else _) (Function.update s.memory.rates k _ key)
      rcases eq_or_ne key k with rfl | hk
      · rw [Function.update_self, if_pos rfl]
        exact (h key).push
      · rw [Function.update_of_ne hk, if_neg hk.symm]
        exact h key
    · exact h.same (fun k he => hr ⟨k, Entry.emit.inj he⟩)
        (rates_apply s t (fun k he => ht ⟨k, he⟩) fun k he => hr ⟨k, he⟩) (monotonic_apply s t e)
  toss h _ _ := h.same (fun _ e => (nomatch e)) rfl rfl
  park h _ _ _ := h.same (fun _ e => (nomatch e)) rfl rfl
  stop h _ _ _ := h.same (fun _ e => (nomatch e)) rfl rfl
  drift {s d l} h _ := by
    intro key
    show Window.Kept 60 (s.monotonic + d.monotonic)
      (admissions key (s.monotonic + d.monotonic - d.monotonic) l) (s.memory.rates key)
    rw [add_sub_cancel_right]
    exact (h key).later (le_add_of_nonneg_right d.forward)
  crash _ _ := fun _ => .nil _ _

/-- **The buckets hold the last minute.** -/
theorem Run.bucketed {s : World} {P : ℕ → Option Pc} {run : Option ℕ} {l : List LogItem}
    (tr : Run cfg C s P run l) : Bucketed s l :=
  maintained_bucketed.traj tr

end MorpheusGateway
