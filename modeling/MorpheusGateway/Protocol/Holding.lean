/-
# Who holds what

The wallet lock, the leases and the restart in progress belong to tasks.  A lease may
also belong to a chat request whose cleanup was handed to a task and has not begun.
`Locks`, `Leased` and `Restarting` say that what the memory shows agrees with the control
points and that nothing has two holders.

`Tracked` is the induction for such invariants: it names the entries that move a
holding, and takes the others together.
-/

import MorpheusGateway.Protocol.Runs

namespace MorpheusGateway

open Contract

variable {cfg : Config} {C : ItemRule}

/-! ### The induction -/

/-- The control points hold the same. -/
structure Pc.Same (pc' pc : Pc) : Prop where
  lock : pc'.lock = pc.lock
  lease : pc'.lease = pc.lease
  waits : pc'.waits = pc.waits
  key : pc'.key = pc.key
  cleaning : pc'.cleaning = pc.cleaning
  pledge : pc'.pledge = pc.pledge
  entrusted : pc'.entrusted = pc.entrusted
  claimed : pc'.claimed = pc.claimed
  restarting : pc'.restarting = pc.restarting

/-- A move changes nothing that is held. -/
theorem Pc.same_move (pc : Pc) (p : Place) : (pc.move p).Same pc :=
  ⟨rfl, rfl, rfl, rfl, rfl, rfl, rfl, rfl, rfl⟩

/-- Nor does an operation that may fail. -/
theorem Pc.same_toss (pc : Pc) (q : StoreCall) (b : Bool) : (pc.toss q b).Same pc := by
  unfold Pc.toss
  split_ifs
  all_goals exact ⟨rfl, rfl, rfl, rfl, rfl, rfl, rfl, rfl, rfl⟩

/-- The events that change what their task holds, or which tasks are to start. -/
def Event.holding : Event → Bool
  | .lock | .unlock | .reserve _ | .unreserve _ | .wait | .unwait | .admitted .. | .dismiss _
  | .cleaned _ | .spawn .. | .maintenance _ => true
  | _ => false

/-- Nor does an event that has nothing to do with it. -/
theorem Pc.same_emit (pc : Pc) {e : Event} (h : e.holding = false) : (pc.emit e).Same pc := by
  cases e with
  | put w row =>
    cases w
    all_goals exact ⟨rfl, rfl, rfl, rfl, rfl, rfl, rfl, rfl, rfl⟩
  | putOperation w op =>
    cases w
    all_goals exact ⟨rfl, rfl, rfl, rfl, rfl, rfl, rfl, rfl, rfl⟩
  | attempt a =>
    simp only [Pc.emit]
    split
    all_goals exact ⟨rfl, rfl, rfl, rfl, rfl, rfl, rfl, rfl, rfl⟩
  | lock | unlock | reserve | unreserve | wait | unwait | admitted | dismiss | cleaned | spawn
  | maintenance => cases h
  | _ => exact ⟨rfl, rfl, rfl, rfl, rfl, rfl, rfl, rfl, rfl⟩

/-- The memory shows the same holdings. -/
structure World.Same (s' s : World) : Prop where
  lock : s'.memory.lock = s.memory.lock
  active : s'.memory.active = s.memory.active
  waiting : s'.memory.waiting = s.memory.waiting
  keyActive : s'.memory.keyActive = s.memory.keyActive
  cleaned : s'.memory.cleaned = s.memory.cleaned
  spawned : s'.memory.spawned = s.memory.spawned
  maintenance : s'.memory.maintenance = s.memory.maintenance

/-- A world holds what it holds. -/
theorem World.Same.refl (s : World) : s.Same s := ⟨rfl, rfl, rfl, rfl, rfl, rfl, rfl⟩

/-- Such an event leaves what the world holds. -/
theorem World.same_apply (s : World) (t : ℕ) {e : Event} (h : e.holding = false) :
    (s.apply t e).Same s := by
  cases e with
  | lock | unlock | reserve | unreserve | wait | unwait | admitted | dismiss | cleaned | spawn
  | maintenance => cases h
  | _ => exact ⟨rfl, rfl, rfl, rfl, rfl, rfl, rfl⟩

/-- The entries of a run keep `I`.  `emit` are the events that move a holding, `still` are
all entries that leave what is held as it is. -/
structure Tracked (cfg : Config) (C : ItemRule)
    (I : World → (ℕ → Option Pc) → List LogItem → Prop) : Prop where
  init {s} (h : Installed s) : I s (fun _ => none) []
  start {s t p s' l} (h : I s (pcAt l) l) (fresh : pcAt l t = none) (may : s.begin t p = some s')
    (c : C s l (.task t (.start p))) :
    I s' (Function.update (pcAt l) t (some (Pc.enter p))) (.task t (.start p) :: l)
  emit {s t pc e l} (h : I s (pcAt l) l) (at_ : pcAt l t = some pc) (ok : EventOk cfg pc s e)
    (c : C s l (.task t (.emit e))) (he : e.holding = true) :
    I (s.apply t e) (Function.update (pcAt l) t (some (pc.emit e))) (.task t (.emit e) :: l)
  still {s s' t pc pc' a l} (h : I s (pcAt l) l) (at_ : pcAt l t = some pc) (hs : s'.Same s)
    (hpc : pc'.Same pc) (ha : ∀ e, a = .emit e → e.holding = false) (c : C s l (.task t a)) :
    I s' (Function.update (pcAt l) t (some pc')) (.task t a :: l)
  stop {s t pc l} (h : I s (pcAt l) l) (at_ : pcAt l t = some pc) (ok : Settled pc s)
    (c : C s l (.task t .stop)) :
    I s (Function.update (pcAt l) t none) (.task t .stop :: l)
  drift {s d l} (h : I s (pcAt l) l) : I (s.drift d) (pcAt l) (.drift d :: l)
  crash {s l} (h : I s (pcAt l) l) : I s.reset (fun _ => none) (.crash :: l)

/-- **A tracked property holds in every run.** -/
theorem Tracked.run {I : World → (ℕ → Option Pc) → List LogItem → Prop} (T : Tracked cfg C I)
    {s : World} {P : ℕ → Option Pc} {run : Option ℕ} {l : List LogItem} (tr : Run cfg C s P run l) :
    I s (pcAt l) l := by
  have same : ∀ {s P run l}, Run cfg C s P run l → P = pcAt l := Run.pcs
  rw [← same tr]
  induction tr with
  | init h => exact T.init h
  | start tr fresh may c ih =>
    obtain rfl := same tr
    exact T.start ih fresh may c
  | wake tr at_ site may c ih =>
    obtain rfl := same tr
    exact T.still ih at_ (World.Same.refl _) (Pc.same_move _ _) (fun _ h => (nomatch h)) c
  | @emit s P l t pc e tr at_ ok c ih =>
    obtain rfl := same tr
    cases he : e.holding with
    | true => exact T.emit ih at_ ok c he
    | false =>
      refine T.still ih at_ (World.same_apply s t he) (Pc.same_emit _ he) (fun e' h => ?_) c
      obtain rfl := Entry.emit.inj h
      exact he
  | toss tr at_ c ih =>
    obtain rfl := same tr
    exact T.still ih at_ (World.Same.refl _) (Pc.same_toss ..) (fun _ h => (nomatch h)) c
  | park tr at_ ok c ih =>
    obtain rfl := same tr
    exact T.still ih at_ (World.Same.refl _) (Pc.same_move _ _) (fun _ h => (nomatch h)) c
  | stop tr at_ ok c ih =>
    obtain rfl := same tr
    exact T.stop ih at_ ok c
  | drift tr c ih =>
    obtain rfl := same tr
    exact T.drift ih
  | crash tr c ih =>
    obtain rfl := same tr
    exact T.crash ih

/-- A program starts with nothing held. -/
theorem Pc.enter_holds (p : Program) : (Pc.enter p).lock = false ∧ (Pc.enter p).lease = none ∧
    (Pc.enter p).waits = false ∧ (Pc.enter p).key = none ∧ (Pc.enter p).cleaning = false ∧
    (Pc.enter p).entrusted = none ∧ (Pc.enter p).claimed = false := by
  cases p with
  | task handle w =>
    cases w
    all_goals exact ⟨rfl, rfl, rfl, rfl, rfl, rfl, rfl⟩
  | _ => exact ⟨rfl, rfl, rfl, rfl, rfl, rfl, rfl⟩

/-- A task that starts finds the memory as it was, but for the list of tasks to start. -/
theorem memory_begin {s s' : World} {t : ℕ} {p : Program} (h : s.begin t p = some s') :
    s'.memory.lock = s.memory.lock ∧ s'.memory.active = s.memory.active ∧
      s'.memory.waiting = s.memory.waiting ∧ s'.memory.keyActive = s.memory.keyActive ∧
      s'.memory.cleaned = s.memory.cleaned ∧ s'.memory.maintenance = s.memory.maintenance ∧
      s'.uuids = s.uuids := by
  cases p with
  | run | task =>
    simp only [World.begin] at h
    split at h
    all_goals cases h
    exact ⟨rfl, rfl, rfl, rfl, rfl, rfl, rfl⟩
  | _ =>
    simp only [World.begin] at h
    split at h
    all_goals cases h
    exact ⟨rfl, rfl, rfl, rfl, rfl, rfl, rfl⟩

/-- What becomes of the tasks that are to start. -/
theorem spawned_begin {s s' : World} {t : ℕ} {p : Program} (h : s.begin t p = some s') :
    (∃ handle w, p = .task handle w ∧ (handle, w) ∈ s.memory.spawned ∧
      s'.memory.spawned = s.memory.spawned.erase (handle, w)) ∨
    (∀ handle w, p ≠ .task handle w) ∧ s'.memory.spawned = s.memory.spawned := by
  cases p with
  | task handle w =>
    simp only [World.begin] at h
    split at h
    · rename_i hmem
      cases h
      exact .inl ⟨handle, w, rfl, hmem, rfl⟩
    · cases h
  | _ =>
    simp only [World.begin] at h
    split at h
    all_goals cases h
    exact .inr ⟨fun _ _ hp => (by cases hp), rfl⟩

/-! ### The wallet lock -/

/-- The wallet lock is held by the task that took it. -/
def Locks (s : World) (P : ℕ → Option Pc) : Prop :=
  ∀ t, s.memory.lock = some t ↔ ∃ pc, P t = some pc ∧ pc.lock = true

/-- Only taking and giving back the lock changes who holds it. -/
theorem Pc.lock_emit (pc : Pc) {e : Event} (hl : e ≠ .lock) (hu : e ≠ .unlock) :
    (pc.emit e).lock = pc.lock := by
  cases he : e.holding with
  | false => exact (pc.same_emit he).lock
  | true =>
    cases e with
    | lock => exact absurd rfl hl
    | unlock => exact absurd rfl hu
    | spawn handle w =>
      cases w
      all_goals rfl
    | maintenance on =>
      cases on
      all_goals rfl
    | reserve | unreserve | wait | unwait | admitted | dismiss | cleaned => rfl
    | _ => cases he

/-- The same in the memory. -/
theorem World.lock_apply (s : World) (t : ℕ) {e : Event} (hl : e ≠ .lock) (hu : e ≠ .unlock) :
    (s.apply t e).memory.lock = s.memory.lock := by
  cases e with
  | lock => exact absurd rfl hl
  | unlock => exact absurd rfl hu
  | _ => rfl

/-- A step that leaves the lock keeps the invariant. -/
theorem Locks.update {s s' : World} {P : ℕ → Option Pc} {t : ℕ} {pc pc' : Pc} (h : Locks s P)
    (at_ : P t = some pc) (hs : s'.memory.lock = s.memory.lock) (hpc : pc'.lock = pc.lock) :
    Locks s' (Function.update P t (some pc')) := by
  intro u
  rw [hs, h u]
  rcases eq_or_ne u t with rfl | hu
  · simp [at_, hpc]
  · rw [Function.update_of_ne hu]

/-- The task takes the lock that nobody holds. -/
theorem Locks.take {s s' : World} {P : ℕ → Option Pc} {t : ℕ} {pc' : Pc} (h : Locks s P)
    (free : s.memory.lock = none) (hs : s'.memory.lock = some t) (hpc : pc'.lock = true) :
    Locks s' (Function.update P t (some pc')) := by
  intro u
  rw [hs]
  rcases eq_or_ne u t with rfl | hu
  · simp [hpc]
  · rw [Function.update_of_ne hu, ← h u, free]
    simp [Ne.symm hu]

/-- The task gives its lock back. -/
theorem Locks.give {s s' : World} {P : ℕ → Option Pc} {t : ℕ} {pc pc' : Pc} (h : Locks s P)
    (at_ : P t = some pc) (held : pc.lock = true) (hs : s'.memory.lock = none)
    (hpc : pc'.lock = false) : Locks s' (Function.update P t (some pc')) := by
  have mine : s.memory.lock = some t := (h t).2 ⟨pc, at_, held⟩
  intro u
  rw [hs]
  rcases eq_or_ne u t with rfl | hu
  · simp [hpc]
  · rw [Function.update_of_ne hu, ← h u, mine]
    simp [Ne.symm hu]

/-- Before the first task nobody holds the lock. -/
theorem Locks.idle (s : World) (hs : s.memory.lock = none) : Locks s fun _ => none := by
  intro t
  rw [hs]
  simp

/-- **The lock is held by the task that the memory names**, in every run. -/
theorem tracked_locks : Tracked cfg C fun s P _ => Locks s P where
  init {s} h := by
    obtain ⟨_, _, rfl⟩ := h
    exact .idle _ rfl
  start {s t p s' l} h fresh may _ := by
    intro u
    rw [(memory_begin may).1, h u]
    rcases eq_or_ne u t with rfl | hu
    · simp [fresh, (Pc.enter_holds p).1]
    · rw [Function.update_of_ne hu]
  emit {s t pc e l} h at_ ok _ _ := by
    have ok : EventOk cfg pc s e := ok
    by_cases hl : e = .lock
    · subst hl
      exact h.take ok.1 rfl rfl
    by_cases hu : e = .unlock
    · subst hu
      exact h.give at_ ok rfl rfl
    exact h.update at_ (s.lock_apply t hl hu) (pc.lock_emit hl hu)
  still h at_ hs hpc _ _ := h.update at_ hs.lock hpc.lock
  stop {s t pc l} h at_ ok _ := by
    intro u
    rw [h u]
    rcases eq_or_ne u t with rfl | hu
    · simp [at_, ok.lock]
    · rw [Function.update_of_ne hu]
  drift h := h
  crash _ := .idle _ rfl

/-! ### The restart in progress -/

/-- Where a restart is: its maintenance has begun, its task is to start, its task runs. -/
inductive Phase : Type where
  | claimed (t : ℕ)
  | spawned
  | running (t : ℕ)

/-- The task is the restart of the node. -/
def Work.isRestart : Work → Bool
  | .restart .. => true
  | _ => false

/-- The number of restarts that are to start. -/
def restarts (spawned : List (ℕ × Work)) : ℕ := spawned.countP fun x => x.2.isRestart

/-- A restart is in this phase. -/
def InPhase (s : World) (P : ℕ → Option Pc) : Phase → Prop
  | .claimed t => ∃ pc, P t = some pc ∧ pc.claimed = true
  | .spawned => 0 < restarts s.memory.spawned
  | .running t => ∃ pc, P t = some pc ∧ pc.restarting.isSome = true

/-- There is at most one restart, and none without maintenance. -/
structure Restarting (s : World) (P : ℕ → Option Pc) : Prop where
  maintenance : ∀ x, InPhase s P x → s.memory.maintenance = true
  one : ∀ x y, InPhase s P x → InPhase s P y → x = y
  single : restarts s.memory.spawned ≤ 1

/-- If what is in progress was so before, nothing changes. -/
theorem Restarting.of_before {s s' : World} {P P' : ℕ → Option Pc} (h : Restarting s P)
    (hm : s'.memory.maintenance = s.memory.maintenance) (hp : ∀ x, InPhase s' P' x → InPhase s P x)
    (hs : restarts s'.memory.spawned ≤ restarts s.memory.spawned) : Restarting s' P' where
  maintenance x hx := hm.trans (h.maintenance x (hp x hx))
  one x y hx hy := h.one x y (hp x hx) (hp y hy)
  single := hs.trans h.single

/-- If nothing but `x` can be in progress, and at most one is to start, all is well. -/
theorem Restarting.of_only {s : World} {P : ℕ → Option Pc} (x : Phase)
    (hx : ∀ y, InPhase s P y → y = x) (hm : (∀ y, ¬InPhase s P y) ∨ s.memory.maintenance = true)
    (hs : restarts s.memory.spawned ≤ 1) : Restarting s P where
  maintenance y hy := hm.elim (fun h => absurd hy (h y)) id
  one y z hy hz := (hx y hy).trans (hx z hz).symm
  single := hs

/-- A task that moved without a step of a restart is in no new phase. -/
theorem InPhase.of_update {s s' : World} {P : ℕ → Option Pc} {t : ℕ} {v : Option Pc}
    (hs : restarts s'.memory.spawned ≤ restarts s.memory.spawned)
    (hv : ∀ pc', v = some pc' → (pc'.claimed = true → ∃ pc, P t = some pc ∧ pc.claimed = true) ∧
      (pc'.restarting.isSome = true → ∃ pc, P t = some pc ∧ pc.restarting.isSome = true)) :
    ∀ x, InPhase s' (Function.update P t v) x → InPhase s P x
  | .claimed u, ⟨q, hq, h⟩ => by
      rcases eq_or_ne u t with rfl | hu
      · rw [Function.update_self] at hq
        exact (hv q hq).1 h
      · rw [Function.update_of_ne hu] at hq
        exact ⟨q, hq, h⟩
  | .spawned, h => lt_of_lt_of_le h hs
  | .running u, ⟨q, hq, h⟩ => by
      rcases eq_or_ne u t with rfl | hu
      · rw [Function.update_self] at hq
        exact (hv q hq).2 h
      · rw [Function.update_of_ne hu] at hq
        exact ⟨q, hq, h⟩

/-- The same when the task moved from a control point with the same phase. -/
theorem Restarting.update {s s' : World} {P : ℕ → Option Pc} {t : ℕ} {pc pc' : Pc}
    (h : Restarting s P) (at_ : P t = some pc) (hm : s'.memory.maintenance = s.memory.maintenance)
    (hs : restarts s'.memory.spawned ≤ restarts s.memory.spawned) (hc : pc'.claimed = pc.claimed)
    (hr : pc'.restarting = pc.restarting) : Restarting s' (Function.update P t (some pc')) := by
  refine h.of_before hm (InPhase.of_update hs fun q hq => ?_) hs
  obtain rfl := Option.some.inj hq
  exact ⟨fun h => ⟨pc, at_, hc ▸ h⟩, fun h => ⟨pc, at_, hr ▸ h⟩⟩

/-- An event that is no step of a restart. -/
theorem Restarting.emit_other {s : World} {P : ℕ → Option Pc} {t : ℕ} {pc : Pc} {e : Event}
    (h : Restarting s P) (at_ : P t = some pc) (hm : ∀ on, e ≠ .maintenance on)
    (hw : ∀ handle w, e = .spawn handle w → w.isRestart = false) :
    Restarting (s.apply t e) (Function.update P t (some (pc.emit e))) := by
  cases he : e.holding with
  | false =>
    have same := s.same_apply t he
    have hpc := pc.same_emit he
    exact h.update at_ same.maintenance (by rw [same.spawned]) hpc.claimed hpc.restarting
  | true =>
    cases e with
    | maintenance on => exact absurd rfl (hm on)
    | spawn handle w =>
      have hr : w.isRestart = false := hw handle w rfl
      have hs : restarts ((handle, w) :: s.memory.spawned) = restarts s.memory.spawned :=
        List.countP_cons_of_neg (by simp [hr])
      cases w with
      | restart => cases hr
      | _ => exact h.update at_ rfl hs.le rfl rfl
    | lock | unlock | reserve | unreserve | wait | unwait | admitted | dismiss | cleaned =>
      exact h.update at_ rfl le_rfl rfl rfl
    | _ => cases he

/-- Where a restart can be after the task `t` moved. -/
theorem InPhase.elim {s s' : World} {P : ℕ → Option Pc} {t : ℕ} {pc' : Pc} {x : Phase}
    (h : InPhase s' (Function.update P t (some pc')) x) :
    x = .claimed t ∧ pc'.claimed = true ∨ x = .spawned ∧ 0 < restarts s'.memory.spawned ∨
      x = .running t ∧ pc'.restarting.isSome = true ∨
      InPhase s P x ∧ x ≠ .claimed t ∧ x ≠ .running t ∧ x ≠ .spawned := by
  cases x with
  | claimed u =>
    obtain ⟨q, hq, hc⟩ := h
    rcases eq_or_ne u t with rfl | hu
    · rw [Function.update_self] at hq
      obtain rfl := Option.some.inj hq
      exact .inl ⟨rfl, hc⟩
    · rw [Function.update_of_ne hu] at hq
      exact .inr (.inr (.inr ⟨⟨q, hq, hc⟩, fun e => hu (Phase.claimed.inj e), nofun, nofun⟩))
  | spawned => exact .inr (.inl ⟨rfl, h⟩)
  | running u =>
    obtain ⟨q, hq, hr⟩ := h
    rcases eq_or_ne u t with rfl | hu
    · rw [Function.update_self] at hq
      obtain rfl := Option.some.inj hq
      exact .inr (.inr (.inl ⟨rfl, hr⟩))
    · rw [Function.update_of_ne hu] at hq
      exact .inr (.inr (.inr ⟨⟨q, hq, hr⟩, nofun, fun e => hu (Phase.running.inj e), nofun⟩))

/-- A maintenance begins: nothing else was in progress. -/
theorem Restarting.claim {s : World} {P : ℕ → Option Pc} {t : ℕ} {pc : Pc} (h : Restarting s P)
    (at_ : P t = some pc) (off : s.memory.maintenance = false) :
    Restarting (s.apply t (.maintenance true))
      (Function.update P t (some (pc.emit (.maintenance true)))) := by
  have idle : ∀ x, ¬InPhase s P x := fun x hx => by
    rw [h.maintenance x hx] at off
    cases off
  refine .of_only (.claimed t) (fun x hx => ?_) (.inr rfl) h.single
  rcases hx.elim (s := s) with ⟨rfl, -⟩ | ⟨rfl, hs⟩ | ⟨-, hr⟩ | ⟨hx, -⟩
  · rfl
  · exact absurd hs (idle .spawned)
  · exact absurd ⟨pc, at_, hr⟩ (idle (.running t))
  · exact absurd hx (idle x)

/-- The restart lifts its maintenance: nothing is in progress. -/
theorem Restarting.lift {s : World} {P : ℕ → Option Pc} {t : ℕ} {pc : Pc} (h : Restarting s P)
    (at_ : P t = some pc) (hr : pc.restarting.isSome = true) :
    Restarting (s.apply t (.maintenance false))
      (Function.update P t (some (pc.emit (.maintenance false)))) := by
  have only : ∀ x, InPhase s P x → x = .running t := fun x hx => h.one x _ hx ⟨pc, at_, hr⟩
  refine .of_only (.running t) (fun x hx => ?_) (.inl fun x hx => ?_) h.single
  · rcases hx.elim (s := s) with ⟨rfl, hc⟩ | ⟨rfl, hs⟩ | ⟨rfl, -⟩ | ⟨hx, -⟩
    · exact only _ ⟨pc, at_, hc⟩
    · exact only .spawned hs
    · rfl
    · exact only x hx
  · rcases hx.elim (s := s) with ⟨rfl, hc⟩ | ⟨rfl, hs⟩ | ⟨-, hn⟩ | ⟨hx, -, hne, -⟩
    · exact nomatch only (.claimed t) ⟨pc, at_, hc⟩
    · exact nomatch only .spawned hs
    · cases hn
    · exact hne (only x hx)

/-- The task of a restart is spawned. -/
theorem Restarting.spawn {s : World} {P : ℕ → Option Pc} {t : ℕ} {pc : Pc} (h : Restarting s P)
    (at_ : P t = some pc) (hc : pc.claimed = true) {handle : ℕ} {op : Operation} (i a : Bool) :
    Restarting (s.apply t (.spawn handle (.restart op i a)))
      (Function.update P t (some (pc.emit (.spawn handle (.restart op i a))))) := by
  have only : ∀ x, InPhase s P x → x = .claimed t := fun x hx => h.one x _ hx ⟨pc, at_, hc⟩
  have none : restarts s.memory.spawned = 0 :=
    Nat.eq_zero_of_not_pos fun hs => nomatch only .spawned hs
  have one : restarts ((handle, Work.restart op i a) :: s.memory.spawned) = 1 := by
    rw [restarts, List.countP_cons_of_pos (by rfl)]
    exact congrArg (· + 1) none
  refine .of_only .spawned (fun x hx => ?_) (.inr (h.maintenance (.claimed t) ⟨pc, at_, hc⟩))
    one.le
  rcases hx.elim (s := s) with ⟨-, hc'⟩ | ⟨rfl, -⟩ | ⟨-, hr⟩ | ⟨hx, hne, -⟩
  · cases hc'
  · rfl
  · exact nomatch only (.running t) ⟨pc, at_, hr⟩
  · exact absurd (only x hx) hne

/-- The task of a restart starts. -/
theorem Restarting.start {s s' : World} {P : ℕ → Option Pc} {t : ℕ} {handle : ℕ} {op : Operation}
    {i a : Bool} (h : Restarting s P) (hm : s'.memory.maintenance = s.memory.maintenance)
    (queued : (handle, Work.restart op i a) ∈ s.memory.spawned)
    (hs : s'.memory.spawned = s.memory.spawned.erase (handle, .restart op i a)) :
    Restarting s' (Function.update P t (some (Pc.enter (.task handle (.restart op i a))))) := by
  have pos : 0 < restarts s.memory.spawned := List.countP_pos_iff.2 ⟨_, queued, rfl⟩
  have only : ∀ x, InPhase s P x → x = .spawned := fun x hx => h.one x .spawned hx pos
  have none : restarts s'.memory.spawned = 0 := by
    rw [hs, restarts, List.countP_erase, if_pos ⟨queued, rfl⟩]
    have := h.single
    unfold restarts at this
    omega
  refine .of_only (.running t) (fun x hx => ?_) (.inr (hm.trans (h.maintenance .spawned pos)))
    (by omega)
  rcases hx.elim (s := s) with ⟨-, hc⟩ | ⟨rfl, hs'⟩ | ⟨rfl, -⟩ | ⟨hx, -, -, hne⟩
  · cases hc
  · omega
  · rfl
  · exact absurd (only x hx) hne

/-- Before the first task there is no restart. -/
theorem Restarting.idle (s : World) (hs : s.memory.spawned = []) : Restarting s fun _ => none := by
  have idle : ∀ x, ¬InPhase s (fun _ => none) x := by
    rintro (u | _ | u) hx
    · obtain ⟨_, hq, -⟩ := hx
      cases hq
    · rw [InPhase, hs] at hx
      cases hx
    · obtain ⟨_, hq, -⟩ := hx
      cases hq
  refine .of_only .spawned (fun x hx => absurd hx (idle x)) (.inl idle) ?_
  rw [hs]
  exact Nat.zero_le 1

/-- A task starts: it is the restart, or no step of one. -/
theorem Restarting.begin {s s' : World} {P : ℕ → Option Pc} {t : ℕ} {p : Program}
    (h : Restarting s P) (may : s.begin t p = some s') :
    Restarting s' (Function.update P t (some (Pc.enter p))) := by
  have hm := (memory_begin may).2.2.2.2.2.1
  have other : restarts s'.memory.spawned ≤ restarts s.memory.spawned →
      (Pc.enter p).restarting = none → Restarting s' (Function.update P t (some (Pc.enter p))) := by
    intro le hr
    refine h.of_before hm (InPhase.of_update le fun q hq => ?_) le
    obtain rfl := Option.some.inj hq
    refine ⟨fun hc => ?_, fun hr' => ?_⟩
    · rw [(Pc.enter_holds p).2.2.2.2.2.2] at hc
      cases hc
    · rw [hr] at hr'
      cases hr'
  rcases spawned_begin may with ⟨handle, w, rfl, queued, hs⟩ | ⟨hp, hs⟩
  · have le : restarts s'.memory.spawned ≤ restarts s.memory.spawned := by
      rw [hs]
      exact (List.erase_sublist).countP_le
    cases w with
    | restart op i a => exact h.start hm queued hs
    | _ => exact other le rfl
  · have le : restarts s'.memory.spawned ≤ restarts s.memory.spawned := by rw [hs]
    cases p with
    | task handle w => exact absurd rfl (hp handle w)
    | _ => exact other le rfl

/-- An event that is in order keeps the invariant. -/
theorem Restarting.emit {s : World} {P : ℕ → Option Pc} {t : ℕ} {pc : Pc} {e : Event}
    (h : Restarting s P) (at_ : P t = some pc) (ok : EventOk cfg pc s e) :
    Restarting (s.apply t e) (Function.update P t (some (pc.emit e))) := by
  by_cases hm : ∃ on, e = .maintenance on
  · obtain ⟨on, rfl⟩ := hm
    cases on with
    | true => exact h.claim at_ ok
    | false => exact h.lift at_ ok
  by_cases hw : ∃ handle op i a, e = .spawn handle (.restart op i a)
  · obtain ⟨handle, op, i, a, rfl⟩ := hw
    exact h.spawn at_ ok.2.2 i a
  refine h.emit_other at_ (fun on he => hm ⟨on, he⟩) fun handle w he => ?_
  cases w with
  | restart op i a => exact absurd ⟨handle, op, i, a, he⟩ hw
  | _ => rfl

/-- **A maintenance has at most one restart**, in every run. -/
theorem tracked_restarting : Tracked cfg C fun s P _ => Restarting s P where
  init {s} h := by
    obtain ⟨_, _, rfl⟩ := h
    exact .idle _ rfl
  start h _ may _ := h.begin may
  emit h at_ ok _ _ := h.emit at_ ok
  still h at_ hs hpc _ _ :=
    h.update at_ hs.maintenance (by rw [hs.spawned]) hpc.claimed hpc.restarting
  stop h _ _ _ := h.of_before rfl (InPhase.of_update le_rfl fun _ hq => (nomatch hq)) le_rfl
  drift {s d l} h := ⟨fun x hx => h.maintenance x (by cases x <;> exact hx),
    fun x y hx hy => h.one x y (by cases x <;> exact hx) (by cases y <;> exact hy), h.single⟩
  crash _ := .idle _ rfl

/-! ### Leases -/

/-- Since the last crash, the cleanup `c` was handed to a task of its own. -/
def Entrusted : List LogItem → Cleanup → Prop
  | [], _ | .crash :: _, _ => False
  | .task _ (.emit (.spawn _ (.cleanup c'))) :: l, c => c = c' ∨ Entrusted l c
  | _ :: l, c => Entrusted l c

/-- Nothing is forgotten before a crash. -/
theorem Entrusted.older {t : ℕ} {a : LogEntry} {l : List LogItem} {c : Cleanup}
    (h : Entrusted l c) : Entrusted (.task t a :: l) c := by
  unfold Entrusted
  split
  all_goals first | exact .inr (by simp_all) | simp_all

/-- What is entrusted was so before, or is handed over now. -/
theorem Entrusted.elim {t : ℕ} {a : LogEntry} {l : List LogItem} {c : Cleanup}
    (h : Entrusted (.task t a :: l) c) :
    Entrusted l c ∨ ∃ handle, a = .emit (.spawn handle (.cleanup c)) := by
  unfold Entrusted at h
  split at h
  all_goals simp_all
  tauto

/-- The cleanups that tasks were spawned for, wait for or are to start with are entrusted. -/
structure Pledges (s : World) (P : ℕ → Option Pc) (l : List LogItem) : Prop where
  pledged : ∀ t pc c, P t = some pc → pc.pledge = some c → Entrusted l c
  joined : ∀ t pc handle c, P t = some pc → pc.entrusted = some (handle, c) → Entrusted l c
  queued : ∀ handle c, (handle, Work.cleanup c) ∈ s.memory.spawned → Entrusted l c

/-- A step keeps the invariant if the cleanups that it names are entrusted. -/
theorem Pledges.update {s s' : World} {P : ℕ → Option Pc} {l : List LogItem} {t : ℕ} {a : LogEntry}
    {v : Option Pc} (h : Pledges s P l)
    (hp : ∀ pc c, v = some pc → pc.pledge = some c → Entrusted (.task t a :: l) c)
    (hj : ∀ pc handle c, v = some pc → pc.entrusted = some (handle, c) →
      Entrusted (.task t a :: l) c)
    (hs : ∀ handle c, (handle, Work.cleanup c) ∈ s'.memory.spawned →
      (handle, Work.cleanup c) ∈ s.memory.spawned ∨ Entrusted (.task t a :: l) c) :
    Pledges s' (Function.update P t v) (.task t a :: l) where
  pledged u q c hq hc := by
    rcases eq_or_ne u t with rfl | hu
    · exact hp q c (by rwa [Function.update_self] at hq) hc
    · rw [Function.update_of_ne hu] at hq
      exact (h.pledged u q c hq hc).older
  joined u q handle c hq hc := by
    rcases eq_or_ne u t with rfl | hu
    · exact hj q handle c (by rwa [Function.update_self] at hq) hc
    · rw [Function.update_of_ne hu] at hq
      exact (h.joined u q handle c hq hc).older
  queued handle c hc := (hs handle c hc).elim (fun hm => (h.queued handle c hm).older) id

/-- An event that neither takes up nor hands over a cleanup. -/
theorem Pledges.same {s s' : World} {P : ℕ → Option Pc} {l : List LogItem} {t : ℕ} {a : LogEntry}
    {pc pc' : Pc} (h : Pledges s P l) (at_ : P t = some pc)
    (hs : s'.memory.spawned = s.memory.spawned) (hp : pc'.pledge = pc.pledge)
    (hj : pc'.entrusted = pc.entrusted) :
    Pledges s' (Function.update P t (some pc')) (.task t a :: l) := by
  refine h.update (fun q c hq hc => ?_) (fun q handle c hq hc => ?_) fun handle c hc => ?_
  · obtain rfl := Option.some.inj hq
    exact (h.pledged t pc c at_ (hp ▸ hc)).older
  · obtain rfl := Option.some.inj hq
    exact (h.joined t pc handle c at_ (hj ▸ hc)).older
  · exact .inl (hs ▸ hc)

/-- Before the first task nothing is pledged. -/
theorem Pledges.idle (s : World) (hs : s.memory.spawned = []) (l : List LogItem) :
    Pledges s (fun _ => none) l where
  pledged _ _ _ hq := nomatch hq
  joined _ _ _ _ hq := nomatch hq
  queued handle c hc := by
    rw [hs] at hc
    cases hc

/-- A cleanup that starts was entrusted. -/
theorem Pledges.begin {s s' : World} {P : ℕ → Option Pc} {l : List LogItem} {t : ℕ} {p : Program}
    (h : Pledges s P l) (may : s.begin t p = some s') :
    Pledges s' (Function.update P t (some (Pc.enter p))) (.task t (.start p) :: l) := by
  refine h.update (fun q c hq hc => ?_) (fun q handle c hq hc => ?_) fun handle c hc => ?_
  · obtain rfl := Option.some.inj hq
    rcases spawned_begin may with ⟨handle, w, rfl, queued, -⟩ | ⟨hp, -⟩
    · cases w with
      | cleanup c' =>
        obtain rfl : c' = c := Option.some.inj hc
        exact (h.queued handle c' queued).older
      | _ => cases hc
    · cases p with
      | task handle w => exact absurd rfl (hp handle w)
      | _ => cases hc
  · obtain rfl := Option.some.inj hq
    rw [(Pc.enter_holds p).2.2.2.2.2.1] at hc
    cases hc
  · rcases spawned_begin may with ⟨handle', w, -, -, hs⟩ | ⟨-, hs⟩
    · rw [hs] at hc
      exact .inl (List.mem_of_mem_erase hc)
    · rw [hs] at hc
      exact .inl hc

/-- An event that is in order keeps the invariant. -/
theorem Pledges.emit {s : World} {P : ℕ → Option Pc} {l : List LogItem} {t : ℕ} {pc : Pc} {e : Event}
    (h : Pledges s P l) (at_ : P t = some pc) (he : e.holding = true) :
    Pledges (s.apply t e) (Function.update P t (some (pc.emit e))) (.task t (.emit e) :: l) := by
  cases e with
  | spawn handle w =>
    cases w with
    | cleanup c =>
      have new : Entrusted (.task t (.emit (.spawn handle (.cleanup c))) :: l) c := .inl rfl
      refine h.update (fun q c' hq hc => ?_) (fun q h' c' hq hc => ?_) fun h' c' hc => ?_
      · obtain rfl := Option.some.inj hq
        exact (h.pledged t pc c' at_ hc).older
      · obtain rfl := Option.some.inj hq
        obtain ⟨rfl, rfl⟩ := Prod.mk.inj (Option.some.inj hc)
        exact new
      · rcases List.mem_cons.1 hc with hc | hc
        · obtain rfl := Work.cleanup.inj (Prod.mk.inj hc).2
          exact .inr new
        · exact .inl hc
    | _ =>
      refine h.update (fun q c' hq hc => ?_) (fun q h' c' hq hc => ?_) fun h' c' hc => ?_
      · obtain rfl := Option.some.inj hq
        exact (h.pledged t pc c' at_ hc).older
      · obtain rfl := Option.some.inj hq
        exact (h.joined t pc h' c' at_ hc).older
      · rcases List.mem_cons.1 hc with hc | hc
        · cases (Prod.mk.inj hc).2
        · exact .inl hc
  | cleaned c =>
    refine h.update (fun q c' hq hc => ?_) (fun q h' c' hq hc => ?_) fun h' c' hc => .inl hc
    · obtain rfl := Option.some.inj hq
      cases hc
    · obtain rfl := Option.some.inj hq
      exact (h.joined t pc h' c' at_ hc).older
  | maintenance on =>
    cases on
    all_goals exact h.same at_ rfl rfl rfl
  | lock | unlock | reserve | unreserve | wait | unwait | admitted | dismiss =>
    exact h.same at_ rfl rfl rfl
  | _ => cases he

/-- **A pledged cleanup was entrusted by its request**, in every run. -/
theorem tracked_pledges : Tracked cfg C Pledges where
  init {s} h := by
    obtain ⟨_, _, rfl⟩ := h
    exact .idle _ rfl _
  start h _ may _ := h.begin may
  emit h at_ _ _ he := h.emit at_ he
  still h at_ hs hpc _ _ := h.same at_ hs.spawned hpc.pledge hpc.entrusted
  stop h _ _ _ := h.update (fun _ _ hq => (nomatch hq)) (fun _ _ _ hq => (nomatch hq))
    fun _ _ hc => .inl hc
  drift h := ⟨h.pledged, h.joined, h.queued⟩
  crash _ := .idle _ rfl _

/-- Who holds a lease: a task, or a request whose cleanup has not begun. -/
inductive Holder : Type where
  | task (t : ℕ)
  | request (c : Cleanup)

/-- The lease of the record `id` is held. -/
def Owns (s : World) (P : ℕ → Option Pc) (l : List LogItem) (id : RowId) : Holder → Prop
  | .task t => ∃ pc, P t = some pc ∧ pc.lease = some id
  | .request c => c.request ∉ s.memory.cleaned ∧ Entrusted l c ∧ c.row.map Row.id = some id

/-- Leases are in `active`, and have one holder. -/
structure Leased (s : World) (P : ℕ → Option Pc) (l : List LogItem) : Prop where
  active : ∀ id o, Owns s P l id o → id ∈ s.memory.active
  one : ∀ id o o', Owns s P l id o → Owns s P l id o' → o = o'

/-- Leases that pass from holder to holder, each to one. -/
theorem Leased.transfer {s s' : World} {P P' : ℕ → Option Pc} {l l' : List LogItem}
    (h : Leased s P l) (f : Holder → Holder)
    (hf : ∀ id o, Owns s' P' l' id o → Owns s P l id (f o))
    (inj : ∀ id o o', Owns s' P' l' id o → Owns s' P' l' id o' → f o = f o' → o = o')
    (ha : ∀ id o, Owns s' P' l' id o → id ∈ s.memory.active → id ∈ s'.memory.active) :
    Leased s' P' l' where
  active id o ho := ha id o ho (h.active id _ (hf id o ho))
  one id o o' ho ho' := inj id o o' ho ho' (h.one id _ _ (hf id o ho) (hf id o' ho'))

/-- Who can hold a lease after the task `t` moved. -/
theorem Owns.elim {s s' : World} {P : ℕ → Option Pc} {l : List LogItem} {t : ℕ} {a : LogEntry}
    {v : Option Pc} {id : RowId} {o : Holder}
    (h : Owns s' (Function.update P t v) (.task t a :: l) id o)
    (hc : s.memory.cleaned ⊆ s'.memory.cleaned) :
    (o = .task t ∧ ∃ pc', v = some pc' ∧ pc'.lease = some id) ∨
      (∃ c handle, o = .request c ∧ a = .emit (.spawn handle (.cleanup c)) ∧
        c.row.map Row.id = some id ∧ c.request ∉ s'.memory.cleaned) ∨
      Owns s P l id o ∧ o ≠ .task t ∧ ∀ c, o = .request c → c.request ∉ s'.memory.cleaned := by
  cases o with
  | task u =>
    obtain ⟨q, hq, hl⟩ := h
    rcases eq_or_ne u t with rfl | hu
    · rw [Function.update_self] at hq
      exact .inl ⟨rfl, q, hq, hl⟩
    · rw [Function.update_of_ne hu] at hq
      exact .inr (.inr ⟨⟨q, hq, hl⟩, fun e => hu (Holder.task.inj e), fun _ e => (nomatch e)⟩)
  | request c =>
    obtain ⟨hn, he, hr⟩ := h
    rcases he.elim with he | ⟨handle, rfl⟩
    · refine .inr (.inr ⟨⟨fun hm => hn (hc hm), he, hr⟩, fun e => (nomatch e), fun c' e => ?_⟩)
      obtain rfl := Holder.request.inj e
      exact hn
    · exact .inr (.inl ⟨c, handle, rfl, rfl, hr, hn⟩)

/-- The task moved without touching a lease. -/
theorem Leased.same {s s' : World} {P : ℕ → Option Pc} {l : List LogItem} {t : ℕ} {a : LogEntry}
    {pc pc' : Pc} (h : Leased s P l) (at_ : P t = some pc) (hl : pc'.lease = pc.lease)
    (hc : s.memory.cleaned ⊆ s'.memory.cleaned) (ha : s.memory.active ⊆ s'.memory.active)
    (hw : ∀ handle c, a ≠ .emit (.spawn handle (.cleanup c))) :
    Leased s' (Function.update P t (some pc')) (.task t a :: l) := by
  refine h.transfer id (fun i o ho => ?_) (fun _ _ _ _ _ e => e) fun i o _ hi => ha hi
  rcases ho.elim hc with ⟨rfl, q, hq, hq'⟩ | ⟨c, handle, -, rfl, -⟩ | ⟨ho, -⟩
  · obtain rfl := Option.some.inj hq
    exact ⟨pc, at_, hl ▸ hq'⟩
  · exact absurd rfl (hw handle c)
  · exact ho

/-- A lease is taken that nobody holds. -/
theorem Leased.reserve {s : World} {P : ℕ → Option Pc} {l : List LogItem} {t : ℕ} {pc : Pc}
    {r : RowId} (h : Leased s P l) (free : r ∉ s.memory.active) :
    Leased (s.apply t (.reserve r)) (Function.update P t (some (pc.emit (.reserve r))))
      (.task t (.emit (.reserve r)) :: l) := by
  have who : ∀ i o, Owns (s.apply t (.reserve r)) (Function.update P t (some (pc.emit (.reserve r))))
      (.task t (.emit (.reserve r)) :: l) i o → (o = .task t ∧ i = r) ∨ Owns s P l i o := by
    intro i o ho
    rcases ho.elim (s := s) (fun _ h => h) with ⟨rfl, q, hq, hq'⟩ | ⟨c, handle, -, ha, -⟩ | ⟨ho, -⟩
    · obtain rfl := Option.some.inj hq
      exact .inl ⟨rfl, (Option.some.inj hq').symm⟩
    · cases ha
    · exact .inr ho
  constructor
  · intro i o ho
    rcases who i o ho with ⟨-, rfl⟩ | ho
    · exact Finset.mem_insert_self _ _
    · exact Finset.mem_insert_of_mem (h.active i o ho)
  · intro i o o' ho ho'
    rcases who i o ho with ⟨rfl, rfl⟩ | h1
    · rcases who _ o' ho' with ⟨rfl, -⟩ | h2
      · rfl
      · exact absurd (h.active _ _ h2) free
    · rcases who i o' ho' with ⟨-, rfl⟩ | h2
      · exact absurd (h.active _ _ h1) free
      · exact h.one i o o' h1 h2

/-- A lease is given back by its holder. -/
theorem Leased.unreserve {s : World} {P : ℕ → Option Pc} {l : List LogItem} {t : ℕ} {pc : Pc}
    {r : RowId} (h : Leased s P l) (at_ : P t = some pc) (mine : pc.lease = some r) :
    Leased (s.apply t (.unreserve r)) (Function.update P t (some (pc.emit (.unreserve r))))
      (.task t (.emit (.unreserve r)) :: l) := by
  have who : ∀ i o, Owns (s.apply t (.unreserve r))
      (Function.update P t (some (pc.emit (.unreserve r)))) (.task t (.emit (.unreserve r)) :: l) i o →
      Owns s P l i o ∧ o ≠ .task t := by
    intro i o ho
    rcases ho.elim (s := s) (fun _ h => h) with ⟨-, q, hq, hq'⟩ | ⟨c, handle, -, ha, -⟩ | ⟨ho, hne, -⟩
    · obtain rfl := Option.some.inj hq
      cases hq'
    · cases ha
    · exact ⟨ho, hne⟩
  refine h.transfer id (fun i o ho => (who i o ho).1) (fun _ _ _ _ _ e => e) fun i o ho hi => ?_
  refine Finset.mem_erase.2 ⟨?_, hi⟩
  rintro rfl
  exact (who i o ho).2 (h.one i o (.task t) (who i o ho).1 ⟨pc, at_, mine⟩)

/-- The lease of a request passes to the task that cleans up. -/
theorem Leased.cleaned {s : World} {P : ℕ → Option Pc} {l : List LogItem} {t : ℕ} {pc : Pc}
    {c : Cleanup} (h : Leased s P l) (new : c.request ∉ s.memory.cleaned) (he : Entrusted l c) :
    Leased (s.apply t (.cleaned c)) (Function.update P t (some (pc.emit (.cleaned c))))
      (.task t (.emit (.cleaned c)) :: l) := by
  have who : ∀ i o, Owns (s.apply t (.cleaned c)) (Function.update P t (some (pc.emit (.cleaned c))))
      (.task t (.emit (.cleaned c)) :: l) i o → (o = .task t ∧ Owns s P l i (.request c)) ∨
        Owns s P l i o ∧ o ≠ .task t ∧ o ≠ .request c := by
    intro i o ho
    rcases ho.elim (s := s) (Finset.subset_insert _ _) with
      ⟨rfl, q, hq, hq'⟩ | ⟨c', handle, -, ha, -⟩ | ⟨ho, hne, hn⟩
    · obtain rfl := Option.some.inj hq
      exact .inl ⟨rfl, new, he, hq'⟩
    · cases ha
    · refine .inr ⟨ho, hne, fun e => hn c e (Finset.mem_insert_self _ _)⟩
  constructor
  · intro i o ho
    rcases who i o ho with ⟨-, ho⟩ | ⟨ho, -⟩
    · exact h.active i _ ho
    · exact h.active i o ho
  · intro i o o' ho ho'
    rcases who i o ho with ⟨rfl, h1⟩ | ⟨h1, -, hne⟩
    · rcases who i o' ho' with ⟨rfl, -⟩ | ⟨h2, -, hne'⟩
      · rfl
      · exact absurd (h.one i _ _ h2 h1) hne'
    · rcases who i o' ho' with ⟨-, h2⟩ | ⟨h2, -, -⟩
      · exact absurd (h.one i _ _ h1 h2) hne
      · exact h.one i o o' h1 h2

/-- The lease of a task passes to the request whose cleanup it hands over. -/
theorem Leased.handOver {s : World} {P : ℕ → Option Pc} {l : List LogItem} {t : ℕ} {pc : Pc}
    {c : Cleanup} {handle : ℕ} (h : Leased s P l) (at_ : P t = some pc)
    (mine : pc.lease = c.row.map Row.id ∨ c.request ∈ s.memory.cleaned) :
    Leased (s.apply t (.spawn handle (.cleanup c)))
      (Function.update P t (some (pc.emit (.spawn handle (.cleanup c)))))
      (.task t (.emit (.spawn handle (.cleanup c))) :: l) := by
  have who : ∀ i o, Owns (s.apply t (.spawn handle (.cleanup c)))
      (Function.update P t (some (pc.emit (.spawn handle (.cleanup c)))))
      (.task t (.emit (.spawn handle (.cleanup c))) :: l) i o →
      (o = .request c ∧ Owns s P l i (.task t)) ∨ Owns s P l i o ∧ o ≠ .task t := by
    intro i o ho
    rcases ho.elim (s := s) (fun _ h => h) with ⟨-, q, hq, hq'⟩ | ⟨c', h', rfl, ha, hr, hn⟩ | ⟨ho, hne, -⟩
    · obtain rfl := Option.some.inj hq
      cases hq'
    · obtain ⟨-, hw⟩ := Event.spawn.inj (Entry.emit.inj ha)
      obtain rfl := Work.cleanup.inj hw
      rcases mine with hl | hm
      · exact .inl ⟨rfl, pc, at_, hl.trans hr⟩
      · exact absurd hm hn
    · exact .inr ⟨ho, hne⟩
  constructor
  · intro i o ho
    rcases who i o ho with ⟨-, ho⟩ | ⟨ho, -⟩
    · exact h.active i _ ho
    · exact h.active i o ho
  · intro i o o' ho ho'
    rcases who i o ho with ⟨rfl, h1⟩ | ⟨h1, hne⟩
    · rcases who i o' ho' with ⟨rfl, -⟩ | ⟨h2, hne'⟩
      · rfl
      · exact absurd (h.one i _ _ h2 h1) hne'
    · rcases who i o' ho' with ⟨-, h2⟩ | ⟨h2, -⟩
      · exact absurd (h.one i _ _ h1 h2) hne
      · exact h.one i o o' h1 h2

/-- Where nobody owns a lease the invariant holds. -/
theorem Leased.idle (s : World) {P : ℕ → Option Pc} {l : List LogItem}
    (h : ∀ i o, ¬Owns s P l i o) : Leased s P l :=
  ⟨fun i o ho => absurd ho (h i o), fun i o _ ho => absurd ho (h i o)⟩

/-- An event that is in order keeps it. -/
theorem Leased.emit {s : World} {P : ℕ → Option Pc} {l : List LogItem} {t : ℕ} {pc : Pc} {e : Event}
    (h : Leased s P l) (hp : Pledges s P l) (at_ : P t = some pc) (ok : EventOk cfg pc s e)
    (he : e.holding = true) :
    Leased (s.apply t e) (Function.update P t (some (pc.emit e))) (.task t (.emit e) :: l) := by
  cases e with
  | reserve r => exact h.reserve ok.1
  | unreserve r => exact h.unreserve at_ ok
  | cleaned c =>
    obtain ⟨new, -, ⟨-, hl⟩ | ⟨hc, -, -⟩⟩ := ok
    · exact h.same at_ hl.symm (Finset.subset_insert _ _) (fun _ hi => hi) (fun _ _ e => (nomatch e))
    · refine h.cleaned new ?_
      rcases hc with hc | ⟨handle, -, hc⟩
      · exact hp.pledged t pc c at_ hc
      · exact hp.joined t pc handle c at_ hc
  | spawn handle w =>
    cases w with
    | cleanup c =>
      obtain ⟨-, -, -, ⟨-, hl⟩ | ⟨hc, -, -⟩⟩ := ok
      · exact h.handOver at_ (.inl hl)
      · exact h.handOver at_ (.inr hc)
    | _ => exact h.same at_ rfl (fun _ h => h) (fun _ h => h) (fun _ _ e => (nomatch e))
  | maintenance on =>
    cases on
    all_goals exact h.same at_ rfl (fun _ h => h) (fun _ h => h) (fun _ _ e => (nomatch e))
  | lock | unlock | wait | unwait | admitted | dismiss =>
    exact h.same at_ rfl (fun _ h => h) (fun _ h => h) (fun _ _ e => (nomatch e))
  | _ => cases he

/-- **A lease has one owner**, in every run. -/
theorem tracked_leased (hC : ∀ {s l x}, C s l x → Pledges s (pcAt l) l) : Tracked cfg C Leased where
  init {s} h := by
    refine .idle _ fun i o ho => ?_
    cases o with
    | task u =>
      obtain ⟨_, hq, -⟩ := ho
      cases hq
    | request c => exact ho.2.1
  start {s t p s' l} h _ may _ := by
    have hm := memory_begin may
    refine h.transfer id (fun i o ho => ?_) (fun _ _ _ _ _ e => e) fun i o _ hi => hm.2.1 ▸ hi
    rcases ho.elim (s := s) (by rw [hm.2.2.2.2.1]) with ⟨rfl, q, hq, hq'⟩ | ⟨c, handle, -, ha, -⟩ | ⟨ho, -⟩
    · obtain rfl := Option.some.inj hq
      rw [(Pc.enter_holds p).2.1] at hq'
      cases hq'
    · cases ha
    · exact ho
  emit h at_ ok c he := h.emit (hC c) at_ ok he
  still {s s' t pc pc' a l} h at_ hs hpc ha _ := by
    refine h.same at_ hpc.lease hs.cleaned.ge hs.active.ge fun handle c e => ?_
    cases ha _ e
  stop {s t pc l} h _ _ _ := by
    refine h.transfer id (fun i o ho => ?_) (fun _ _ _ _ _ e => e) fun i o _ hi => hi
    rcases ho.elim (s := s) (fun _ h => h) with ⟨-, q, hq, -⟩ | ⟨c, handle, -, ha, -⟩ | ⟨ho, -⟩
    · cases hq
    · cases ha
    · exact ho
  drift {s d l} h := by
    refine h.transfer id (fun i o ho => ?_) (fun _ _ _ _ _ e => e) fun i o _ hi => hi
    cases o <;> exact ho
  crash {s l} _ := by
    refine .idle _ fun i o ho => ?_
    cases o with
    | task u =>
      obtain ⟨_, hq, -⟩ := ho
      cases hq
    | request c => exact ho.2.1

/-- **Every run keeps its holdings in order.** -/
theorem Run.leased {s : World} {P : ℕ → Option Pc} {run : Option ℕ} {l : List LogItem}
    (tr : Run cfg C s P run l) : Leased s (pcAt l) l :=
  (tracked_leased (C := fun s l x => C s l x ∧ Pledges s (pcAt l) l) fun c => c.2).run
    (Traj.knowing (I := fun s l => Pledges s (pcAt l) l) tracked_pledges.run tr)

end MorpheusGateway
