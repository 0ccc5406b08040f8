/-
# The numbers of the tasks

Every task is spawned under a number drawn for it, and runs and finishes under it
(`Numbered`).  The opener of a model and the sweep have a slot in the memory.  `Slotted`
says that an unfinished task of that kind is the one in the slot, or is about to be
recorded in the piece that spawned it, so that there is at most one.
-/

import MorpheusGateway.Protocol.Holding

namespace MorpheusGateway

open Contract

variable {cfg : Config} {C : ItemRule}

/-! ### What the log tells of a number -/

/-- Since the last crash, the task `w` was spawned under the number `h`. -/
def Spawned (h : ℕ) (w : Work) : List LogItem → Prop
  | [] | .crash :: _ => False
  | .task _ (.emit (.spawn h' w')) :: l => (h = h' ∧ w = w') ∨ Spawned h w l
  | _ :: l => Spawned h w l

/-- Nothing is forgotten before a crash. -/
theorem Spawned.older {t h : ℕ} {w : Work} {a : LogEntry} {l : List LogItem}
    (hs : Spawned h w l) : Spawned h w (.task t a :: l) := by
  cases a with
  | emit e =>
    cases e with
    | spawn => exact .inr hs
    | _ => exact hs
  | _ => exact hs

/-- What was spawned was so before, or is spawned now. -/
theorem Spawned.elim {t h : ℕ} {w : Work} {a : LogEntry} {l : List LogItem}
    (hs : Spawned h w (.task t a :: l)) : Spawned h w l ∨ a = .emit (.spawn h w) := by
  cases a with
  | emit e =>
    cases e with
    | spawn =>
      rcases hs with ⟨rfl, rfl⟩ | hs
      · exact .inr rfl
      · exact .inl hs
    | _ => exact .inl hs
  | _ => exact .inl hs

/-! ### What entries do to the numbers -/

/-- A task keeps its number until it finishes. -/
theorem Pc.task_emit (pc : Pc) {e : Event} (he : ∀ h r, e ≠ .finish h r) :
    (pc.emit e).task = pc.task := by
  cases e with
  | finish h r => exact absurd rfl (he h r)
  | put w row =>
    cases w
    all_goals rfl
  | putOperation w op =>
    cases w
    all_goals rfl
  | attempt a =>
    simp only [Pc.emit]
    split
    all_goals rfl
  | maintenance on =>
    cases on
    all_goals rfl
  | spawn handle w =>
    cases w
    all_goals rfl
  | _ => rfl

/-- Where the number of a control point comes from. -/
theorem Pc.uuid_emit (pc : Pc) (e : Event) :
    (pc.emit e).uuid = pc.uuid ∨ (pc.emit e).uuid = none ∨ ∃ n, e = .uuid n ∧ (pc.emit e).uuid = some n := by
  cases e with
  | put w row =>
    cases w
    all_goals first | exact .inl rfl | exact .inr (.inl rfl)
  | putOperation w op =>
    cases w
    all_goals first | exact .inl rfl | exact .inr (.inl rfl)
  | attempt a =>
    simp only [Pc.emit]
    split
    all_goals exact .inl rfl
  | maintenance on =>
    cases on
    all_goals exact .inl rfl
  | spawn handle w =>
    cases w
    all_goals exact .inr (.inl rfl)
  | uuid n => exact .inr (.inr ⟨n, rfl, rfl⟩)
  | _ => first | exact .inl rfl | exact .inr (.inl rfl)

/-- A task with a slot that was begun was so before, or is spawned now. -/
theorem Pc.begun_emit {pc : Pc} {e : Event} {h : ℕ} {w : Work} (hb : (pc.emit e).begun = some (h, w)) :
    pc.begun = some (h, w) ∧ (∀ m n, e ≠ .opener m n) ∧ (∀ n, e ≠ .sweepTask n) ∨ e = .spawn h w := by
  cases e with
  | put w row =>
    cases w
    all_goals exact .inl ⟨hb, fun _ _ h => (by cases h), fun _ h => by cases h⟩
  | putOperation w op =>
    cases w
    all_goals exact .inl ⟨hb, fun _ _ h => (by cases h), fun _ h => by cases h⟩
  | attempt a =>
    simp only [Pc.emit] at hb
    split at hb
    all_goals exact .inl ⟨hb, fun _ _ h => (by cases h), fun _ h => by cases h⟩
  | maintenance on =>
    cases on
    all_goals exact .inl ⟨hb, fun _ _ h => (by cases h), fun _ h => by cases h⟩
  | spawn handle w' =>
    cases w' with
    | opener | sweep | treasury =>
      obtain ⟨rfl, rfl⟩ := Prod.mk.inj (Option.some.inj hb)
      exact .inr rfl
    | _ => exact .inl ⟨hb, fun _ _ h => (by cases h), fun _ h => by cases h⟩
  | opener | sweepTask => cases hb
  | _ => exact .inl ⟨hb, fun _ _ h => (by cases h), fun _ h => by cases h⟩

/-- Only a task with a slot that is spawned or recorded changes what has begun. -/
theorem Pc.begun_emit_of_ne (pc : Pc) {e : Event} (h0 : ∀ n w, e ≠ .spawn n w)
    (h1 : ∀ m n, e ≠ .opener m n) (h2 : ∀ n, e ≠ .sweepTask n) : (pc.emit e).begun = pc.begun := by
  cases e with
  | put w row =>
    cases w
    all_goals rfl
  | putOperation w op =>
    cases w
    all_goals rfl
  | attempt a =>
    simp only [Pc.emit]
    split
    all_goals rfl
  | maintenance on =>
    cases on
    all_goals rfl
  | spawn n w => exact absurd rfl (h0 n w)
  | opener m n => exact absurd rfl (h1 m n)
  | sweepTask n => exact absurd rfl (h2 n)
  | _ => rfl

/-- An operation that may fail changes no number. -/
theorem task_toss (pc : Pc) (q : StoreCall) (b : Bool) : (pc.toss q b).task = pc.task ∧
    (pc.toss q b).uuid = pc.uuid ∧ (pc.toss q b).begun = pc.begun := by
  unfold Pc.toss
  split_ifs
  all_goals exact ⟨rfl, rfl, rfl⟩

/-- A task starts with the number it was spawned under. -/
theorem Pc.enter_numbers (p : Program) : (Pc.enter p).uuid = none ∧ (Pc.enter p).begun = none ∧
    ∀ h w, (Pc.enter p).task = some (h, w) → p = .task h w := by
  cases p with
  | task handle w =>
    refine ⟨?_, ?_, fun h' w' he => ?_⟩
    · cases w <;> rfl
    · cases w <;> rfl
    · have : (handle, w) = (h', w') := by cases w <;> exact Option.some.inj he
      obtain ⟨rfl, rfl⟩ := Prod.mk.inj this
      rfl
  | _ => exact ⟨rfl, rfl, fun _ _ he => (nomatch he)⟩

/-- What an event does to the list of the tasks that are to start, and to the results. -/
theorem tasks_apply (s : World) (t : ℕ) (e : Event) :
    ((s.apply t e).memory.spawned = s.memory.spawned ∧ (∀ h w, e ≠ .spawn h w) ∨
      ∃ h w, e = .spawn h w) ∧
    ((s.apply t e).memory.finished = s.memory.finished ∧ (∀ h r, e ≠ .finish h r) ∨
      ∃ h r, e = .finish h r) ∧
    ((s.apply t e).uuids = s.uuids ∧ (∀ n, e ≠ .uuid n) ∨ ∃ n, e = .uuid n) := by
  cases e with
  | spawn h w => exact ⟨.inr ⟨h, w, rfl⟩, .inl ⟨rfl, fun _ _ h => (nomatch h)⟩, .inl ⟨rfl, fun _ h => (nomatch h)⟩⟩
  | finish h r => exact ⟨.inl ⟨rfl, fun _ _ h => (nomatch h)⟩, .inr ⟨h, r, rfl⟩, .inl ⟨rfl, fun _ h => (nomatch h)⟩⟩
  | uuid n => exact ⟨.inl ⟨rfl, fun _ _ h => (nomatch h)⟩, .inl ⟨rfl, fun _ _ h => (nomatch h)⟩, .inr ⟨n, rfl⟩⟩
  | _ => exact ⟨.inl ⟨rfl, fun _ _ h => (nomatch h)⟩, .inl ⟨rfl, fun _ _ h => (nomatch h)⟩, .inl ⟨rfl, fun _ h => (nomatch h)⟩⟩

/-- A task that starts finds the results as they were. -/
theorem finished_begin {s s' : World} {t : ℕ} {p : Program} (h : s.begin t p = some s') :
    s'.memory.finished = s.memory.finished ∧ s'.memory.holder = s.memory.holder := by
  cases p with
  | run | task =>
    simp only [World.begin] at h
    split at h
    all_goals cases h
    exact ⟨rfl, rfl⟩
  | _ =>
    simp only [World.begin] at h
    split at h
    all_goals cases h
    exact ⟨rfl, rfl⟩

/-! ### Suspended tasks -/

/-- A suspended task has no number drawn, and no other task begun. -/
def Pc.Resting (pc : Pc) : Prop := ∀ i, pc.place = .parked i → pc.uuid = none ∧ pc.begun = none

/-- Only a task that is parked has to rest. -/
theorem Pc.Resting.of_place {pc : Pc} (h : ∀ i, pc.place ≠ .parked i) : pc.Resting :=
  fun i hi => absurd hi (h i)

/-- A task that is parked rests, whatever the others do. -/
theorem undisturbed_resting (hC : ∀ {s l x}, C s l x → Alone (protocol cfg) l x) :
    Undisturbed (gateway cfg) (protocol cfg) C fun _ _ pc => pc.Resting where
  enter {s t p s' l} _ _ := by
    have hp : ((protocol cfg).enter p).place = .fresh := Pc.enter_place p
    refine .of_place fun i hi => ?_
    rw [hp] at hi
    cases hi
  begin _ h _ := h
  wake _ _ _ _ := .of_place fun _ hi => (nomatch hi)
  emit {s t pc e l} _ at_ _ c :=
    .of_place (place_of_site_none ((sited cfg).emit e ((hC c).2 rfl pc at_)))
  other _ hu _ _ _ _ _ := hu
  toss {s t pc q b l} h _ := by
    intro i hi
    obtain ⟨-, hu, hb⟩ := task_toss pc q b
    have hr := h i ((place_toss pc q b).symm.trans hi)
    exact ⟨hu.trans hr.1, hb.trans hr.2⟩
  park _ _ _ _ := fun _ _ => ⟨rfl, rfl⟩
  drift h _ := h

/-- The same in every run. -/
theorem Run.resting {s : World} {P : ℕ → Option Pc} {run : Option ℕ} {l : List LogItem}
    (tr : Run cfg C s P run l) : ∀ t pc, pcAt l t = some pc → pc.Resting := by
  intro t pc hpc
  refine (undisturbed_resting (C := fun s l x => C s l x ∧ Alone (protocol cfg) l x)
    fun c => c.2).traj (Traj.alone (sited cfg) tr) t pc ?_
  rwa [Run.pcs tr]

/-- Between the pieces, no task has a number drawn or a task begun. -/
theorem Run.rested {s : World} {P : ℕ → Option Pc} {l : List LogItem} (tr : Run cfg C s P none l) :
    ∀ t pc, pcAt l t = some pc → pc.uuid = none ∧ pc.begun = none := by
  intro t pc hpc
  obtain ⟨i, hi⟩ := (Traj.suspended (sited cfg) tr t pc (by rwa [Run.pcs tr])).2 nofun
  exact tr.resting t pc hpc i (place_of_site hi)

/-- While a task runs, the others have no number drawn and no task begun. -/
def Quieted (l : List LogItem) (t : ℕ) : Prop :=
  ∀ u q, u ≠ t → pcAt l u = some q → q.uuid = none ∧ q.begun = none

/-- The same as a condition on the items of a run, with what it says of the task itself. -/
def QuietedItem : ItemRule
  | _, l, .task t _ => Quieted l t ∧ ∀ pc, pcAt l t = some pc → pc.Resting
  | _, _, _ => True

/-- Every run is one in which a task that is suspended has nothing begun. -/
theorem Run.quieted {s : World} {P : ℕ → Option Pc} {run : Option ℕ} {l : List LogItem}
    (tr : Run cfg C s P run l) :
    Run cfg (fun s l x => C s l x ∧ QuietedItem s l x) s P run l := by
  have known := Traj.knowing (I := fun _ l => ∀ t pc, pcAt l t = some pc → pc.Resting) Run.resting
    (Traj.alone (sited cfg) tr)
  refine Traj.mono (fun s l x c => ⟨c.1.1, ?_⟩) known
  match x with
  | .task t a =>
    refine ⟨fun u q hu hq => ?_, fun pc hpc => c.2 t pc hpc⟩
    obtain ⟨i, hi⟩ := c.1.2.1 u q hu (by rwa [point_protocol])
    exact c.2 u q hq i (place_of_site hi)
  | .drift _ | .crash => exact trivial

/-! ### One number for each task -/

/-- The task `t` runs the work `w` under the number `h`, and has not finished it. -/
def Performs (l : List LogItem) (t h : ℕ) (w : Work) : Prop :=
  ∃ pc, pcAt l t = some pc ∧ pc.task = some (h, w)

/-- Every spawned task has a number of its own, starts once and runs under it. -/
structure Numbered (s : World) (l : List LogItem) : Prop where
  below : ∀ h w, Spawned h w l → h < s.uuids
  one : ∀ h w w', Spawned h w l → Spawned h w' l → w = w'
  drawn : ∀ t pc, pcAt l t = some pc → ∀ n, pc.uuid = some n → n < s.uuids ∧ ∀ w, ¬Spawned n w l
  queued : ∀ h w, (h, w) ∈ s.memory.spawned → Spawned h w l ∧ s.memory.finished h = none
  once : s.memory.spawned.Nodup
  running : ∀ t h w, Performs l t h w → Spawned h w l ∧ s.memory.finished h = none ∧
    (h, w) ∉ s.memory.spawned
  single : ∀ t u h w, Performs l t h w → Performs l u h w → t = u
  finished : ∀ h, (s.memory.finished h).isSome = true → ∃ w, Spawned h w l

/-- A task performs what it performed before, unless it was the one that moved. -/
theorem Performs.elim {l : List LogItem} {t u h : ℕ} {w : Work} {a : LogEntry}
    (hp : Performs (.task t a :: l) u h w) :
    u = t ∧ (∃ pc, (protocol {}).advance a (pcAt l t) = some pc ∧ pc.task = some (h, w)) ∨
      u ≠ t ∧ Performs l u h w := by
  obtain ⟨q, hq, ht⟩ := hp
  rw [pcAt_task] at hq
  rcases eq_or_ne u t with rfl | hu
  · rw [Function.update_self] at hq
    exact .inl ⟨rfl, q, hq, ht⟩
  · rw [Function.update_of_ne hu] at hq
    exact .inr ⟨hu, q, hq, ht⟩

/-- An entry that spawns nothing, and finishes nothing but its own task. -/
theorem Numbered.move {s s' : World} {l : List LogItem} {t : ℕ} {a : LogEntry} (h : Numbered s l)
    (ha : ∀ n w, a ≠ .emit (.spawn n w)) (hs : s'.memory.spawned = s.memory.spawned)
    (hu : s.uuids ≤ s'.uuids)
    (hf : ∀ n, s'.memory.finished n = s.memory.finished n ∨ (∃ w, Performs l t n w) ∧
      ∀ pc', (protocol {}).advance a (pcAt l t) = some pc' → pc'.task = none)
    (hpc : ∀ pc', (protocol {}).advance a (pcAt l t) = some pc' → ∃ pc, pcAt l t = some pc ∧
      (∀ x, pc'.task = some x → pc.task = some x) ∧
      ∀ n, pc'.uuid = some n → pc.uuid = some n ∨ n = s.uuids ∧ s.uuids < s'.uuids) :
    Numbered s' (.task t a :: l) := by
  have old : ∀ {n w}, Spawned n w (.task t a :: l) → Spawned n w l := fun hw =>
    hw.elim.resolve_right fun he => ha _ _ he
  have before : ∀ {u n w}, Performs (.task t a :: l) u n w → Performs l u n w := by
    intro u n w hp
    rcases hp.elim with ⟨rfl, pc', hpc', ht⟩ | ⟨-, hp⟩
    · obtain ⟨pc, hat, htask, -⟩ := hpc pc' hpc'
      exact ⟨pc, hat, htask _ ht⟩
    · exact hp
  refine ⟨fun n w hw => (h.below n w (old hw)).trans_le hu, fun n w w' hw hw' => h.one n w w' (old hw) (old hw'),
    ?_, fun n w hm => ?_, hs ▸ h.once, fun u n w hp => ?_,
    fun u v n w hp hq => h.single u v n w (before hp) (before hq), fun n hn => ?_⟩
  · refine forall_pcAt (fun pc' hpc' n hn => ?_) fun u q _ hq n hn => ?_
    · obtain ⟨pc, hat, -, huuid⟩ := hpc pc' hpc'
      rcases huuid n hn with hn | ⟨rfl, hlt⟩
      · exact ⟨(h.drawn t pc hat n hn).1.trans_le hu, fun w hw => (h.drawn t pc hat n hn).2 w (old hw)⟩
      · exact ⟨hlt, fun w hw => (h.below _ w (old hw)).false⟩
    · exact ⟨(h.drawn u q hq n hn).1.trans_le hu, fun w hw => (h.drawn u q hq n hn).2 w (old hw)⟩
  · rw [hs] at hm
    obtain ⟨hw, hnone⟩ := h.queued n w hm
    refine ⟨hw.older, ?_⟩
    rcases hf n with he | ⟨⟨w', hp⟩, -⟩
    · rw [he, hnone]
    · obtain ⟨hw', -, hq⟩ := h.running t n w' hp
      obtain rfl := h.one n w w' hw hw'
      exact absurd hm hq
  · obtain ⟨hw, hnone, hq⟩ := h.running u n w (before hp)
    refine ⟨hw.older, ?_, by rwa [hs]⟩
    rcases hf n with he | ⟨⟨w', hp'⟩, ht⟩
    · rw [he, hnone]
    · -- The task that finishes does not perform any more.
      obtain rfl := h.one n w w' hw (h.running t n w' hp').1
      obtain rfl := h.single u t n w (before hp) hp'
      rcases hp.elim with ⟨-, pc', hpc', ht'⟩ | ⟨hne, -⟩
      · exact nomatch (ht pc' hpc').symm.trans ht'
      · exact absurd rfl hne
  · rcases hf n with he | ⟨⟨w, hp⟩, -⟩
    · rw [he] at hn
      obtain ⟨w, hw⟩ := h.finished n hn
      exact ⟨w, hw.older⟩
    · exact ⟨w, (h.running t n w hp).1.older⟩

/-- A task is spawned under the number that was drawn for it. -/
theorem Numbered.spawn {s : World} {l : List LogItem} {t n : ℕ} {w : Work} {pc : Pc}
    (h : Numbered s l) (at_ : pcAt l t = some pc) (hn : pc.uuid = some n) (quiet : Quieted l t) :
    Numbered (s.apply t (.spawn n w)) (.task t (.emit (.spawn n w)) :: l) := by
  obtain ⟨hlt, new⟩ := h.drawn t pc at_ n hn
  have before : ∀ {u m x}, Performs (.task t (.emit (.spawn n w)) :: l) u m x → Performs l u m x := by
    intro u m x hp
    rcases hp.elim with ⟨rfl, pc', hpc', ht⟩ | ⟨-, hp⟩
    · rw [at_] at hpc'
      obtain rfl := Option.some.inj hpc'
      exact ⟨pc, at_, (pc.task_emit (e := .spawn n w) fun _ _ he => (nomatch he)).symm.trans ht⟩
    · exact hp
  have fresh : s.memory.finished n = none := by
    by_contra hne
    obtain ⟨x, hx⟩ := h.finished n (Option.isSome_iff_ne_none.2 hne)
    exact new x hx
  refine ⟨fun m x hx => ?_, fun m x y hx hy => ?_, ?_, fun m x hm => ?_, ?_, fun u m x hp => ?_,
    fun u v m x hp hq => h.single u v m x (before hp) (before hq), fun m hm => ?_⟩
  · rcases hx with ⟨rfl, -⟩ | hx
    · exact hlt
    · exact h.below m x hx
  · rcases hx with ⟨rfl, rfl⟩ | hx
    · rcases hy with ⟨-, rfl⟩ | hy
      · rfl
      · exact absurd hy (new y)
    · rcases hy with ⟨rfl, rfl⟩ | hy
      · exact absurd hx (new x)
      · exact h.one m x y hx hy
  · refine forall_pcAt (fun pc' hpc' m hm => ?_) fun u q hu hq m hm => ?_
    · rw [at_] at hpc'
      obtain rfl := Option.some.inj hpc'
      have none : (pc.emit (.spawn n w)).uuid = none := by cases w <;> rfl
      exact nomatch none.symm.trans hm
    · exact nomatch (quiet u q hu hq).1.symm.trans hm
  · rcases List.mem_cons.1 hm with hm | hm
    · obtain ⟨rfl, rfl⟩ := Prod.mk.inj hm
      exact ⟨.inl ⟨rfl, rfl⟩, fresh⟩
    · exact (h.queued m x hm).imp_left .inr
  · exact List.nodup_cons.2 ⟨fun hm => new w (h.queued n w hm).1, h.once⟩
  · obtain ⟨hx, hnone, hm⟩ := h.running u m x (before hp)
    refine ⟨.inr hx, hnone, fun hm' => ?_⟩
    rcases List.mem_cons.1 hm' with hm' | hm'
    · obtain ⟨rfl, rfl⟩ := Prod.mk.inj hm'
      exact new x hx
    · exact hm hm'
  · obtain ⟨x, hx⟩ := h.finished m hm
    exact ⟨x, .inr hx⟩

/-- A task that was spawned starts under its number. -/
theorem Numbered.begin {s s' : World} {l : List LogItem} {t : ℕ} {p : Program} (h : Numbered s l)
    (may : s.begin t p = some s') : Numbered s' (.task t (.start p) :: l) := by
  obtain ⟨hu, -, htask⟩ := Pc.enter_numbers p
  have uuids : s'.uuids = s.uuids := (memory_begin may).2.2.2.2.2.2
  have finished : s'.memory.finished = s.memory.finished := (finished_begin may).1
  have sub : ∀ x, x ∈ s'.memory.spawned → x ∈ s.memory.spawned := by
    intro x hx
    rcases spawned_begin may with ⟨_, _, -, -, hs⟩ | ⟨-, hs⟩
    · exact List.mem_of_mem_erase (hs ▸ hx)
    · exact hs ▸ hx
  -- The task that starts was to start, and is so no more.
  have mine : ∀ n w, (Pc.enter p).task = some (n, w) →
      (n, w) ∈ s.memory.spawned ∧ (n, w) ∉ s'.memory.spawned := by
    intro n w hw
    obtain rfl := htask n w hw
    rcases spawned_begin may with ⟨n', w', hp, hm, hs⟩ | ⟨hp, -⟩
    · obtain ⟨rfl, rfl⟩ := Program.task.inj hp
      exact ⟨hm, by rw [hs]; exact h.once.not_mem_erase⟩
    · exact absurd rfl (hp n w)
  refine ⟨fun n w hw => ?_, fun n w w' hw hw' => h.one n w w' hw hw', ?_,
    fun n w hm => by rw [finished]; exact h.queued n w (sub _ hm), ?_, fun u n w hp => ?_,
    fun u v n w hp hq => ?_, fun n hn => ?_⟩
  · rw [uuids]
    exact h.below n w hw
  · refine forall_pcAt (fun pc' hpc' n hn => ?_) fun u q _ hq n hn => ?_
    · obtain rfl := Option.some.inj hpc'
      exact nomatch hu.symm.trans hn
    · rw [uuids]
      exact h.drawn u q hq n hn
  · rcases spawned_begin may with ⟨_, _, -, -, hs⟩ | ⟨-, hs⟩
    · exact hs ▸ h.once.erase _
    · exact hs ▸ h.once
  · rcases hp.elim with ⟨rfl, pc', hpc', ht⟩ | ⟨-, hp⟩
    · obtain rfl := Option.some.inj hpc'
      obtain ⟨hw, hnone⟩ := h.queued n w (mine n w ht).1
      exact ⟨hw, by rw [finished]; exact hnone, (mine n w ht).2⟩
    · obtain ⟨hw, hnone, hq⟩ := h.running u n w hp
      exact ⟨hw, by rw [finished]; exact hnone, fun hm => hq (sub _ hm)⟩
  · have other : ∀ {u v}, u ≠ v → Performs (.task t (.start p) :: l) u n w →
        Performs (.task t (.start p) :: l) v n w → False := by
      intro u v huv hp hq
      rcases hp.elim with ⟨hut, pc', hpc', ht⟩ | ⟨-, hp'⟩
      · obtain rfl := Option.some.inj hpc'
        rcases hq.elim with ⟨hvt, -⟩ | ⟨-, hq'⟩
        · exact huv (hut.trans hvt.symm)
        · exact (h.running v n w hq').2.2 (mine n w ht).1
      · rcases hq.elim with ⟨-, pc', hpc', ht⟩ | ⟨-, hq'⟩
        · obtain rfl := Option.some.inj hpc'
          exact (h.running u n w hp').2.2 (mine n w ht).1
        · exact huv (h.single u v n w hp' hq')
    by_contra huv
    exact other huv hp hq
  · rw [finished] at hn
    exact h.finished n hn

/-- Nothing was spawned. -/
theorem Numbered.idle {s : World} {l : List LogItem} (hl : ∀ h w, ¬Spawned h w l)
    (hp : ∀ t, pcAt l t = none) (hs : s.memory.spawned = []) (hf : ∀ h, s.memory.finished h = none) :
    Numbered s l where
  below h w hw := absurd hw (hl h w)
  one h w _ hw := absurd hw (hl h w)
  drawn t pc hpc := nomatch (hp t).symm.trans hpc
  queued h w hm := by
    rw [hs] at hm
    cases hm
  once := by
    rw [hs]
    exact List.nodup_nil
  running t h w := fun ⟨pc, hpc, _⟩ => nomatch (hp t).symm.trans hpc
  single t u h w := fun ⟨pc, hpc, _⟩ => nomatch (hp t).symm.trans hpc
  finished h hn := by
    rw [hf] at hn
    cases hn

/-- A task is spawned under the number that was just drawn. -/
theorem uuid_of_spawn {pc : Pc} {s : World} {n : ℕ} {w : Work} (ok : EventOk cfg pc s (.spawn n w)) :
    pc.uuid = some n := by
  cases w with
  | scheduledClose | tick => exact ok
  | _ => exact ok.1

/-- **Numbers are used once**, in every run. -/
theorem maintained_numbered (hC : ∀ {s l x}, C s l x → QuietedItem s l x) :
    Maintained (gateway cfg) (protocol cfg) Installed C Numbered where
  init {s} h := by
    obtain ⟨_, _, rfl⟩ := h
    exact .idle (fun _ _ h => h) (fun _ => rfl) rfl fun _ => rfl
  start h _ may _ := h.begin may
  wake {s t pc i r l} h at_ _ _ _ := by
    rw [point_protocol] at at_
    refine h.move (fun _ _ he => (nomatch he)) rfl le_rfl (fun _ => .inl rfl) fun pc' hpc' => ?_
    rw [at_] at hpc'
    obtain rfl := Option.some.inj hpc'
    exact ⟨pc, at_, fun _ h => h, fun _ hn => (nomatch hn)⟩
  emit {s t pc e l} h at_ ok c := by
    rw [point_protocol] at at_
    have ok : EventOk cfg pc s e := ok
    obtain ⟨⟨hs, hne⟩ | ⟨n, w, rfl⟩, hf, hu⟩ := tasks_apply s t e
    swap
    · exact h.spawn at_ (uuid_of_spawn ok) (hC c).1
    refine h.move (fun n w he => hne n w (Entry.emit.inj he)) hs ?_ (fun n => ?_) fun pc' hpc' => ?_
    · rcases hu with ⟨hu, -⟩ | ⟨n, rfl⟩
      · exact hu.ge
      · exact Nat.le_succ _
    · rcases hf with ⟨hf, -⟩ | ⟨m, r, rfl⟩
      · exact .inl (congrFun hf n)
      · obtain ⟨w, hw, -⟩ := ok
        rcases eq_or_ne n m with rfl | hnm
        · refine .inr ⟨⟨w, pc, at_, hw⟩, fun pc' hpc' => ?_⟩
          rw [at_] at hpc'
          obtain rfl := Option.some.inj hpc'
          rfl
        · exact .inl (Function.update_of_ne hnm ..)
    · rw [at_] at hpc'
      obtain rfl := Option.some.inj hpc'
      refine ⟨pc, at_, fun x hx => ?_, fun n hn => ?_⟩
      · by_cases hfin : ∃ h r, e = .finish h r
        · obtain ⟨_, _, rfl⟩ := hfin
          cases hx
        · exact (pc.task_emit fun h r he => hfin ⟨h, r, he⟩).symm.trans hx
      · rcases pc.uuid_emit e with he | he | ⟨m, rfl, he⟩
        · exact .inl (he.symm.trans hn)
        · exact nomatch he.symm.trans hn
        · obtain rfl := Option.some.inj (he.symm.trans hn)
          exact .inr ⟨ok, Nat.lt_succ_self _⟩
  toss {s t pc q b l} h at_ _ := by
    rw [point_protocol] at at_
    refine h.move (fun _ _ he => (nomatch he)) rfl le_rfl (fun _ => .inl rfl) fun pc' hpc' => ?_
    rw [at_] at hpc'
    obtain rfl := Option.some.inj hpc'
    obtain ⟨ht, hu, -⟩ := task_toss pc q b
    exact ⟨pc, at_, fun _ h => ht.symm.trans h, fun _ hn => .inl (hu.symm.trans hn)⟩
  park {s t pc i l} h at_ _ _ := by
    rw [point_protocol] at at_
    refine h.move (fun _ _ he => (nomatch he)) rfl le_rfl (fun _ => .inl rfl) fun pc' hpc' => ?_
    rw [at_] at hpc'
    obtain rfl := Option.some.inj hpc'
    exact ⟨pc, at_, fun _ h => h, fun _ hn => (nomatch hn)⟩
  stop {s t pc l} h _ _ _ :=
    h.move (fun _ _ he => (nomatch he)) rfl le_rfl (fun _ => .inl rfl) fun _ hpc' => (nomatch hpc')
  drift h _ := ⟨h.below, h.one, h.drawn, h.queued, h.once, h.running, h.single, h.finished⟩
  crash _ _ := .idle (fun _ _ h => h) (fun _ => rfl) rfl fun _ => rfl

/-- **Every run numbers its tasks.** -/
theorem Run.numbered {s : World} {P : ℕ → Option Pc} {run : Option ℕ} {l : List LogItem}
    (tr : Run cfg C s P run l) : Numbered s l :=
  (maintained_numbered (C := fun s l x => C s l x ∧ QuietedItem s l x) fun c => c.2).traj
    (Run.quieted tr)

/-! ### One task for each slot -/

/-- The tasks with a slot: an unfinished one is in it, or is about to be recorded. -/
structure Slotted (s : World) (l : List LogItem) : Prop where
  recorded : ∀ h w k, Spawned h w l → w.slot = some k → s.memory.finished h = none →
    s.memory.holder k = some h ∨ ∃ t pc, pcAt l t = some pc ∧ pc.begun = some (h, w)
  begun : ∀ t pc, pcAt l t = some pc → ∀ h w, pc.begun = some (h, w) →
    Spawned h w l ∧ ∃ k, w.slot = some k ∧ s.memory.Free k
  callback : ∀ h o m, Spawned h (.openerDone o m) l → (s.memory.finished o).isSome = true

/-- An entry that leaves the slots as they are, and drops nothing begun. -/
theorem Slotted.move {s s' : World} {l : List LogItem} {t : ℕ} {a : LogEntry} (h : Slotted s l)
    (ha : ∀ n w, a ≠ .emit (.spawn n w)) (hh : s'.memory.holder = s.memory.holder)
    (hf : ∀ n, (s.memory.finished n).isSome = true → (s'.memory.finished n).isSome = true)
    (hpc : ∀ x, (∃ pc, pcAt l t = some pc ∧ pc.begun = some x) ↔
      ∃ pc, (protocol {}).advance a (pcAt l t) = some pc ∧ pc.begun = some x) :
    Slotted s' (.task t a :: l) := by
  have old : ∀ {n w}, Spawned n w (.task t a :: l) → Spawned n w l := fun hw =>
    hw.elim.resolve_right fun he => ha _ _ he
  have free : ∀ {k}, s.memory.Free k → s'.memory.Free k := fun hk n hn => hf n (hk n (hh ▸ hn))
  refine ⟨fun n w k hw hk hn => ?_, ?_, fun n o m hw => hf o (h.callback n o m (old hw))⟩
  · have hn' : s.memory.finished n = none := by
      by_contra hne
      have := hf n (Option.isSome_iff_ne_none.2 hne)
      rw [hn] at this
      cases this
    rcases h.recorded n w k (old hw) hk hn' with hr | ⟨u, pc, hpc', hb⟩
    · exact .inl (hh ▸ hr)
    · refine .inr ?_
      rcases eq_or_ne u t with rfl | hu
      · obtain ⟨pc', hadv, hb'⟩ := (hpc _).1 ⟨pc, hpc', hb⟩
        exact ⟨u, pc', by rw [pcAt_task, Function.update_self, hadv], hb'⟩
      · exact ⟨u, pc, by rw [pcAt_task, Function.update_of_ne hu, hpc'], hb⟩
  · refine forall_pcAt (fun pc' hpc' n w hb => ?_) fun u q _ hq n w hb => ?_
    · obtain ⟨pc, hat, hb'⟩ := (hpc _).2 ⟨pc', hpc', hb⟩
      obtain ⟨hw, k, hk, hfree⟩ := h.begun t pc hat n w hb'
      exact ⟨hw.older, k, hk, free hfree⟩
    · obtain ⟨hw, k, hk, hfree⟩ := h.begun u q hq n w hb
      exact ⟨hw.older, k, hk, free hfree⟩

/-- The tasks with a slot. -/
theorem slot_cases (w : Work) : w.slot = none ∨ (∃ m r, w = .opener m r ∧ w.slot = some (.opening m)) ∨
    (w = .sweep ∨ w = .treasury) ∧ w.slot = some .sweep := by
  cases w with
  | opener m r => exact .inr (.inl ⟨m, r, rfl, rfl⟩)
  | sweep => exact .inr (.inr ⟨.inl rfl, rfl⟩)
  | treasury => exact .inr (.inr ⟨.inr rfl, rfl⟩)
  | _ => exact .inl rfl

/-- A task takes its slot only when it is free. -/
theorem free_of_spawn {pc : Pc} {s : World} {n : ℕ} {w : Work} {k : Slot}
    (ok : EventOk cfg pc s (.spawn n w)) (hk : w.slot = some k) :
    pc.begun = none ∧ s.memory.Free k ∧ (pc.emit (.spawn n w)).begun = some (n, w) := by
  rcases slot_cases w with hn | ⟨m, r, rfl, hs⟩ | ⟨rfl | rfl, hs⟩
  · cases hn.symm.trans hk
  · obtain rfl := Option.some.inj (hs.symm.trans hk)
    obtain ⟨-, hb, hnone, -⟩ := ok
    exact ⟨hb, fun h hh => (nomatch hnone.symm.trans hh), rfl⟩
  · obtain rfl := Option.some.inj (hs.symm.trans hk)
    exact ⟨ok.2.1, ok.2.2, rfl⟩
  · obtain rfl := Option.some.inj (hs.symm.trans hk)
    exact ⟨ok.2.1, ok.2.2, rfl⟩

/-- A task that is spawned with a slot is about to be recorded. -/
theorem Slotted.spawn {s : World} {l : List LogItem} {t n : ℕ} {w : Work} {pc : Pc} (h : Slotted s l)
    (at_ : pcAt l t = some pc) (ok : EventOk cfg pc s (.spawn n w)) (quiet : Quieted l t) :
    Slotted (s.apply t (.spawn n w)) (.task t (.emit (.spawn n w)) :: l) := by
  have mine : ∀ {u q x}, pcAt l u = some q → q.begun = some x → u = t := by
    intro u q x hq hb
    by_contra hu
    exact nomatch (quiet u q hu hq).2.symm.trans hb
  have now : pcAt (.task t (.emit (.spawn n w)) :: l) t = some (pc.emit (.spawn n w)) := by
    rw [pcAt_task, Function.update_self, at_]
    rfl
  refine ⟨fun m x k hx hk hn => ?_, ?_, fun m o y hy => ?_⟩
  · rcases hx with ⟨rfl, rfl⟩ | hx
    · exact .inr ⟨t, _, now, (free_of_spawn ok hk).2.2⟩
    · refine (h.recorded m x k hx hk hn).imp id ?_
      rintro ⟨u, q, hq, hb⟩
      obtain rfl := mine hq hb
      obtain rfl := Option.some.inj (at_.symm.trans hq)
      refine ⟨u, _, now, ?_⟩
      -- A task with a slot is not begun while another is.
      have hw : w.slot = none := by
        by_contra hne
        obtain ⟨k', hk'⟩ := Option.ne_none_iff_exists'.1 hne
        exact nomatch (free_of_spawn ok hk').1.symm.trans hb
      cases w with
      | opener | sweep | treasury => cases hw
      | _ => exact hb
  · refine forall_pcAt (fun pc' hpc' m x hb => ?_) fun u q hu hq m x hb => ?_
    · rw [at_] at hpc'
      obtain rfl := Option.some.inj hpc'
      rcases Pc.begun_emit hb with ⟨hb, -⟩ | he
      · exact (h.begun t pc at_ m x hb).imp_left Spawned.older
      · obtain ⟨rfl, rfl⟩ := Event.spawn.inj he
        rcases slot_cases w with hn | ⟨_, _, -, hs⟩ | ⟨-, hs⟩
        · cases w with
          | opener | sweep | treasury => cases hn
          | _ => exact (h.begun t pc at_ n _ hb).imp_left Spawned.older
        · exact ⟨.inl ⟨rfl, rfl⟩, _, hs, (free_of_spawn ok hs).2.1⟩
        · exact ⟨.inl ⟨rfl, rfl⟩, _, hs, (free_of_spawn ok hs).2.1⟩
    · exact absurd (mine hq hb) hu
  · rcases hy with ⟨rfl, rfl⟩ | hy
    · exact ok.2
    · exact h.callback m o y hy

/-- The task that was begun is recorded in its slot. -/
theorem Slotted.record {s s' : World} {l : List LogItem} {t n : ℕ} {w : Work} {k : Slot} {pc : Pc}
    {e : Event} (h : Slotted s l) (at_ : pcAt l t = some pc) (hb : pc.begun = some (n, w))
    (hk : w.slot = some k) (he : ∀ m x, e ≠ .spawn m x) (none : (pc.emit e).begun = none)
    (hh : s'.memory.holder = Function.update s.memory.holder k (some n))
    (hf : s'.memory.finished = s.memory.finished) (quiet : Quieted l t) :
    Slotted s' (.task t (.emit e) :: l) := by
  have old : ∀ {n w}, Spawned n w (.task t (.emit e) :: l) → Spawned n w l := fun hw =>
    hw.elim.resolve_right fun ha => he _ _ (Entry.emit.inj ha)
  obtain ⟨-, k', hk', hfree⟩ := h.begun t pc at_ n w hb
  obtain rfl := Option.some.inj (hk'.symm.trans hk)
  refine ⟨fun m x j hx hj hn => .inl ?_, ?_, fun m o y hy => by rw [hf]; exact h.callback m o y (old hy)⟩
  · rw [hf] at hn
    rw [hh]
    rcases h.recorded m x j (old hx) hj hn with hr | ⟨u, q, hq, hb'⟩
    · rcases eq_or_ne j k' with rfl | hne
      · have := hfree m hr
        rw [hn] at this
        cases this
      · rw [Function.update_of_ne hne, hr]
    · obtain rfl : u = t := by
        by_contra hu
        exact nomatch (quiet u q hu hq).2.symm.trans hb'
      obtain rfl := Option.some.inj (at_.symm.trans hq)
      obtain ⟨rfl, rfl⟩ := Prod.mk.inj (Option.some.inj (hb.symm.trans hb'))
      obtain rfl := Option.some.inj (hj.symm.trans hk')
      rw [Function.update_self]
  · refine forall_pcAt (fun pc' hpc' m x hb' => ?_) fun u q hu hq m x hb' => ?_
    · rw [at_] at hpc'
      obtain rfl := Option.some.inj hpc'
      exact nomatch none.symm.trans hb'
    · exact nomatch (quiet u q hu hq).2.symm.trans hb'

/-- An opener is recorded for its model. -/
theorem holder_opener (s : World) (t n : ℕ) (m : String) :
    (s.apply t (.opener m n)).memory.holder =
      Function.update s.memory.holder (.opening m) (some n) := by
  funext k
  cases k with
  | opening m' =>
    rcases eq_or_ne m' m with rfl | hm
    · rw [Function.update_self]
      exact Function.update_self ..
    · rw [Function.update_of_ne (by simpa using hm)]
      exact Function.update_of_ne hm ..
  | sweep => exact (Function.update_of_ne (by simp) ..).symm

/-- A task of the wallet scan or the treasury is recorded. -/
theorem holder_sweepTask (s : World) (t n : ℕ) :
    (s.apply t (.sweepTask n)).memory.holder = Function.update s.memory.holder .sweep (some n) := by
  funext k
  cases k with
  | opening m =>
    rw [Function.update_of_ne (by simp)]
    rfl
  | sweep =>
    rw [Function.update_self]
    rfl

/-- An opener is forgotten when it has finished. -/
theorem Slotted.drop {s : World} {l : List LogItem} {t o : ℕ} {m : String} (h : Slotted s l)
    (ho : s.memory.opening m = some o) (hf : (s.memory.finished o).isSome = true) :
    Slotted (s.apply t (.dropOpener m)) (.task t (.emit (.dropOpener m)) :: l) := by
  have holder : ∀ k n, (s.apply t (.dropOpener m)).memory.holder k = some n →
      s.memory.holder k = some n := by
    intro k n hn
    cases k with
    | opening m' =>
      rcases eq_or_ne m' m with rfl | hm
      · have none : (s.apply t (.dropOpener m')).memory.holder (.opening m') = none :=
          Function.update_self ..
        cases none.symm.trans hn
      · exact (Function.update_of_ne hm .. : (s.apply t (.dropOpener m)).memory.opening m' = _).symm.trans hn
    | sweep => exact hn
  refine ⟨fun n w k hw hk hn => ?_, ?_, h.callback⟩
  · refine (h.recorded n w k hw hk hn).imp (fun hr => ?_) fun ⟨u, q, hq, hb⟩ => ?_
    · cases k with
      | opening m' =>
        rcases eq_or_ne m' m with rfl | hm
        · obtain rfl := Option.some.inj (ho.symm.trans hr)
          rw [show s.memory.finished o = none from hn] at hf
          cases hf
        · show Function.update s.memory.opening m none m' = some n
          rw [Function.update_of_ne hm]
          exact hr
      | sweep => exact hr
    · rcases eq_or_ne u t with rfl | hu
      · exact ⟨u, q.emit (.dropOpener m), by rw [pcAt_task, Function.update_self, hq]; rfl, hb⟩
      · exact ⟨u, q, by rw [pcAt_task, Function.update_of_ne hu, hq], hb⟩
  · have free : ∀ {k}, s.memory.Free k → (s.apply t (.dropOpener m)).memory.Free k :=
      fun hk n hn => hk n (holder _ n hn)
    refine forall_pcAt (fun pc' hpc' n w hb => ?_) fun u q _ hq n w hb => ?_
    · cases hq : pcAt l t with
      | none =>
        rw [hq] at hpc'
        cases hpc'
      | some q =>
        rw [hq] at hpc'
        obtain rfl := Option.some.inj hpc'
        obtain ⟨hw, k, hk, hfree⟩ := h.begun t q hq n w hb
        exact ⟨hw, k, hk, free hfree⟩
    · obtain ⟨hw, k, hk, hfree⟩ := h.begun u q hq n w hb
      exact ⟨hw, k, hk, free hfree⟩

/-- No event but these concerns the slots. -/
theorem holder_apply (s : World) (t : ℕ) {e : Event} (h1 : ∀ m n, e ≠ .opener m n)
    (h2 : ∀ m, e ≠ .dropOpener m) (h3 : ∀ n, e ≠ .sweepTask n) :
    (s.apply t e).memory.holder = s.memory.holder := by
  cases e with
  | opener m n => exact absurd rfl (h1 m n)
  | dropOpener m => exact absurd rfl (h2 m)
  | sweepTask n => exact absurd rfl (h3 n)
  | _ => rfl

/-- An event that is in order keeps the invariant. -/
theorem Slotted.emit {s : World} {l : List LogItem} {t : ℕ} {pc : Pc} {e : Event} (h : Slotted s l)
    (hn : Numbered s l) (at_ : pcAt l t = some pc) (ok : EventOk cfg pc s e) (quiet : Quieted l t) :
    Slotted (s.apply t e) (.task t (.emit e) :: l) := by
  by_cases h0 : ∃ n w, e = .spawn n w
  · obtain ⟨n, w, rfl⟩ := h0
    exact h.spawn at_ ok quiet
  by_cases h1 : ∃ m n, e = .opener m n
  · obtain ⟨m, n, rfl⟩ := h1
    obtain ⟨revision, hb⟩ := ok
    exact h.record at_ hb rfl (fun _ _ he => (nomatch he)) rfl (holder_opener s t n m) rfl quiet
  by_cases h2 : ∃ m, e = .dropOpener m
  · obtain ⟨m, rfl⟩ := h2
    obtain ⟨o, ho, hf | ⟨handle, ht⟩⟩ := ok
    · exact h.drop ho hf
    · exact h.drop ho (h.callback handle o m (hn.running t handle _ ⟨pc, at_, ht⟩).1)
  by_cases h3 : ∃ n, e = .sweepTask n
  · obtain ⟨n, rfl⟩ := h3
    obtain ⟨w, hb, hk⟩ := ok
    exact h.record at_ hb hk (fun _ _ he => (nomatch he)) rfl (holder_sweepTask s t n) rfl quiet
  refine h.move (fun n w he => h0 ⟨n, w, Entry.emit.inj he⟩)
    (holder_apply s t (fun m n he => h1 ⟨m, n, he⟩) (fun m he => h2 ⟨m, he⟩) fun n he => h3 ⟨n, he⟩)
    (fun n hf => ?_) fun x => ?_
  · obtain ⟨-, ⟨hf', -⟩ | ⟨m, r, rfl⟩, -⟩ := tasks_apply s t e
    · rwa [hf']
    · show (Function.update s.memory.finished m (some r) n).isSome = true
      rcases eq_or_ne n m with rfl | hnm
      · rw [Function.update_self]
        rfl
      · rwa [Function.update_of_ne hnm]
  · have same : (pc.emit e).begun = pc.begun :=
      pc.begun_emit_of_ne (fun n w he => h0 ⟨n, w, he⟩) (fun m n he => h1 ⟨m, n, he⟩) fun n he => h3 ⟨n, he⟩
    rw [at_]
    refine ⟨fun ⟨q, hq, hb⟩ => ⟨_, rfl, ?_⟩, fun ⟨q, hq, hb⟩ => ⟨pc, rfl, ?_⟩⟩
    · obtain rfl := Option.some.inj hq
      exact same.trans hb
    · obtain rfl := Option.some.inj hq
      exact same.symm.trans hb

/-- Before the first task no slot is taken. -/
theorem Slotted.idle {s : World} {l : List LogItem} (hl : ∀ h w, ¬Spawned h w l)
    (hp : ∀ t, pcAt l t = none) : Slotted s l where
  recorded h w _ hw := absurd hw (hl h w)
  begun t _ hpc := nomatch (hp t).symm.trans hpc
  callback h _ _ hw := absurd hw (hl h _)

/-- **An unfinished task of a slot is the one recorded in it**, in every run. -/
theorem maintained_slotted (hC : ∀ {s l x}, C s l x → QuietedItem s l x ∧ Numbered s l) :
    Maintained (gateway cfg) (protocol cfg) Installed C Slotted where
  init {s} _ := .idle (fun _ _ h => h) fun _ => rfl
  start {s t p s' l} h fresh may _ := by
    rw [point_protocol] at fresh
    obtain ⟨hf, hh⟩ := finished_begin (t := t) may
    refine h.move (fun _ _ he => (nomatch he)) hh (fun n hn => by rwa [hf]) fun x => ?_
    refine ⟨fun ⟨q, hq, _⟩ => (nomatch fresh.symm.trans hq), fun ⟨q, hq, hb⟩ => ?_⟩
    obtain rfl := Option.some.inj hq
    exact nomatch (Pc.enter_numbers p).2.1.symm.trans hb
  wake {s t pc i r l} h at_ site _ c := by
    rw [point_protocol] at at_
    have rest := (hC c).1.2 pc at_ i (place_of_site site)
    refine h.move (fun _ _ he => (nomatch he)) rfl (fun _ hn => hn) fun x => ?_
    rw [at_]
    refine ⟨fun ⟨q, hq, hb⟩ => ?_, fun ⟨q, hq, hb⟩ => ?_⟩
    · obtain rfl := Option.some.inj hq
      exact nomatch rest.2.symm.trans hb
    · obtain rfl := Option.some.inj hq
      cases hb
  emit {s t pc e l} h at_ ok c := by
    rw [point_protocol] at at_
    exact h.emit (hC c).2 at_ ok (hC c).1.1
  toss {s t pc q b l} h at_ _ := by
    rw [point_protocol] at at_
    have same := (task_toss pc q b).2.2
    refine h.move (fun _ _ he => (nomatch he)) rfl (fun _ hn => hn) fun x => ?_
    rw [at_]
    refine ⟨fun ⟨k, hk, hb⟩ => ⟨_, rfl, ?_⟩, fun ⟨k, hk, hb⟩ => ⟨pc, rfl, ?_⟩⟩
    · obtain rfl := Option.some.inj hk
      exact same.trans hb
    · obtain rfl := Option.some.inj hk
      exact same.symm.trans hb
  park {s t pc i l} h at_ ok _ := by
    rw [point_protocol] at at_
    refine h.move (fun _ _ he => (nomatch he)) rfl (fun _ hn => hn) fun x => ?_
    rw [at_]
    refine ⟨fun ⟨q, hq, hb⟩ => ?_, fun ⟨q, hq, hb⟩ => ?_⟩
    · obtain rfl := Option.some.inj hq
      exact nomatch ok.2.symm.trans hb
    · obtain rfl := Option.some.inj hq
      cases hb
  stop {s t pc l} h at_ ok _ := by
    rw [point_protocol] at at_
    have ok : Settled pc s := ok
    refine h.move (fun _ _ he => (nomatch he)) rfl (fun _ hn => hn) fun x => ?_
    rw [at_]
    refine ⟨fun ⟨q, hq, hb⟩ => ?_, fun ⟨_, hq, _⟩ => (nomatch hq)⟩
    obtain rfl := Option.some.inj hq
    exact nomatch ok.begun.symm.trans hb
  drift h _ := ⟨h.recorded, h.begun, h.callback⟩
  crash _ _ := .idle (fun _ _ h => h) fun _ => rfl

/-- **Every run keeps its slots in order.** -/
theorem Run.slotted {s : World} {P : ℕ → Option Pc} {run : Option ℕ} {l : List LogItem}
    (tr : Run cfg C s P run l) : Slotted s l := by
  have known := Traj.knowing (I := Numbered) Run.numbered (Run.quieted tr)
  exact (maintained_slotted (C := fun s l x => (C s l x ∧ QuietedItem s l x) ∧ Numbered s l)
    fun c => ⟨c.1.2, c.2⟩).traj known

/-- Only the running task has one begun. -/
theorem Run.begins {s : World} {P : ℕ → Option Pc} {run : Option ℕ} {l : List LogItem}
    (tr : Run cfg C s P run l) {t : ℕ} {pc : Pc} (hpc : pcAt l t = some pc) (hb : pc.begun ≠ none) :
    run = some t := by
  by_contra hne
  obtain ⟨i, hi⟩ := (Traj.suspended (sited cfg) tr t pc (by rwa [Run.pcs tr])).2 hne
  exact hb (tr.resting t pc hpc i (place_of_site hi)).2

/-- Two unfinished tasks with the same slot are one. -/
def OneUnfinished (s : World) (l : List LogItem) : Prop :=
  ∀ ⦃h h' w w' k⦄, Spawned h w l → Spawned h' w' l → w.slot = some k → w'.slot = some k →
    s.memory.finished h = none → s.memory.finished h' = none → h = h'

/-- **A slot has one unfinished task at most.** -/
theorem Run.one_unfinished {s : World} {P : ℕ → Option Pc} {run : Option ℕ} {l : List LogItem}
    (tr : Run cfg C s P run l) : OneUnfinished s l := by
  intro h h' w w' k hw hw' hk hk' hf hf'
  have hs := tr.slotted
  -- A task that is begun leaves no other unfinished one recorded.
  have alone : ∀ {t pc n m x}, pcAt l t = some pc → pc.begun = some (n, x) → x.slot = some k →
      s.memory.holder k = some m → s.memory.finished m ≠ none := by
    intro t pc n m x hpc hb hx hm hnone
    obtain ⟨-, k', hk', free⟩ := hs.begun t pc hpc n x hb
    obtain rfl := Option.some.inj (hk'.symm.trans hx)
    have := free m hm
    rw [hnone] at this
    cases this
  rcases hs.recorded h w k hw hk hf with hr | ⟨t, pc, hpc, hb⟩
  · rcases hs.recorded h' w' k hw' hk' hf' with hr' | ⟨u, q, hq, hb'⟩
    · exact Option.some.inj (hr.symm.trans hr')
    · exact absurd hf (alone hq hb' hk' hr)
  · rcases hs.recorded h' w' k hw' hk' hf' with hr' | ⟨u, q, hq, hb'⟩
    · exact absurd hf' (alone hpc hb hk hr')
    · obtain rfl := Option.some.inj ((tr.begins hpc (by simp [hb])).symm.trans
        (tr.begins hq (by simp [hb'])))
      obtain rfl := Option.some.inj (hpc.symm.trans hq)
      exact (Prod.mk.inj (Option.some.inj (hb.symm.trans hb'))).1

end MorpheusGateway
