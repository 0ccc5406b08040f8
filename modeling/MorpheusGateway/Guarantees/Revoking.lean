/-
# Powers, saved settings, the queue and revoked keys

What the contract `powers` says of all runs, alone or together with the protocol.

The settings form one chain of revisions however the requests that save them interleave, and
the queue never holds more than 64 requests.  A key that was once stored as revoked is so for
good: its token was drawn for it alone, every later change is made of the key as it is stored,
and a request is dispatched only if its key is enabled at that moment.
-/

import MorpheusGateway.Protocol.Courses
import MorpheusGateway.Protocol.Holding
import MorpheusGateway.Protocol.Programs

namespace MorpheusGateway

open Contract

variable {cfg : Config} {C Good : ItemRule}

/-! ### The runs of the powers -/

/-- The runs in which every task keeps to its powers. -/
abbrev PowerRun (cfg : Config) (C : ItemRule) :
    World → (ℕ → Option Agent) → Option ℕ → List LogItem → Prop :=
  powers.Traj (gateway cfg) Installed C

/-- The program of the task `t`, as the log tells it. -/
def programOf (l : List LogItem) (t : ℕ) : Option Program := (started t l).map Prod.fst

/-- A task has the program that it was started with. -/
theorem programOf_of_point {t : ℕ} {l : List LogItem} {a : Agent} (h : powers.point t l = some a) :
    programOf l t = some a.program := by
  induction l generalizing a with
  | nil => cases h
  | cons x l ih =>
    cases x with
    | task u y =>
      unfold point at h
      split_ifs at h with hu
      · subst hu
        cases y with
        | start p =>
          obtain rfl := Option.some.inj h
          simp [programOf, started]
          rfl
        | stop => cases h
        | emit | toss | park | wake =>
          obtain ⟨b, hb, rfl⟩ := Option.map_eq_some_iff.1 h
          exact (ih hb).trans (congrArg some (Agent.next_program ..).symm)
      · have old := ih h
        cases y with
        | start p => simpa [programOf, started, hu] using old
        | _ => exact old
    | drift d => exact ih h
    | crash => cases h

/-- What holds of the powers at an event holds at the events of all runs. -/
theorem Ensures.poweredEvent {p : World → List LogItem → ℕ → Event → Prop}
    (h : ∀ {s P l t a e}, PowerRun cfg C s P (some t) l → powers.point t l = some a →
      AgentOk a s (.emit e) → p s l t e) : Ensures cfg C (OnEvent p) := by
  intro m a m' r st hC x hx
  obtain rfl : a = some x := hx
  match x with
  | .task t (.emit e) =>
    obtain ⟨P, a, tr, hP, ok⟩ := ok_of_emit (powers_holds cfg) r st
    exact h tr (by rw [← hP, tr.point_eq]) ok
  | .task t (.start _) | .task t (.wake ..) | .task t (.toss ..) | .task t (.park _)
  | .task t .stop | .drift _ | .crash => exact trivial

/-- The same for the awaits. -/
theorem Ensures.poweredPark {p : World → List LogItem → ℕ → Site → Prop}
    (h : ∀ {s P l t a i}, PowerRun cfg C s P (some t) l → powers.point t l = some a →
      AgentOk a s (.park i) → p s l t i) : Ensures cfg C (OnPark p) := by
  intro m a m' r st hC x hx
  obtain rfl : a = some x := hx
  match x with
  | .task t (.park i) =>
    obtain ⟨P, a, tr, hP, ok⟩ := ok_of_park (powers_holds cfg) r st
    exact h tr (by rw [← hP, tr.point_eq]) ok
  | .task t (.start _) | .task t (.wake ..) | .task t (.toss ..) | .task t (.emit _)
  | .task t .stop | .drift _ | .crash => exact trivial

/-- What holds in all their runs holds at all items. -/
theorem Ensures.whilePowered {p : World → List LogItem → Prop}
    (h : ∀ {s P run l}, PowerRun cfg C s P run l → p s l) : Ensures cfg C fun s l _ => p s l := by
  intro m a m' r _ _ x _
  obtain ⟨P, tr, -⟩ := reach_traj (powers_holds cfg) r
  exact h tr

/-- A task uses the powers of its program only. -/
def UsesPowers : ItemRule := fun s l x =>
  OnEvent (fun _ l t e => ∀ k, e.power = some k → ∃ p, programOf l t = some p ∧ p.may k) s l x ∧
    OnPark (fun _ l t i => ∀ k, i.power = some k → ∃ p, programOf l t = some p ∧ p.may k) s l x

/-- **Least privilege.**  In every run the settings, the API keys, the queue, the wallet, the
node and the provider are touched by tasks of the programs that may, and by no others. -/
theorem usesPowers : Ensures cfg Always UsesPowers := by
  refine (Ensures.poweredEvent fun _ at_ ok k hk => ?_).and
    (Ensures.poweredPark fun _ at_ ok k hk => ?_)
  · exact ⟨_, programOf_of_point at_, ok.1 k hk⟩
  · exact ⟨_, programOf_of_point at_, ok.1 k hk⟩

/-! ### Saved settings -/

/-- The revisions that were saved, newest first. -/
def revisions : List LogItem → List ℕ
  | [] => []
  | .task _ (.emit (.policy p)) :: l => p.revision :: revisions l
  | _ :: l => revisions l

/-- The stored settings are those of the last revision that was saved, and the revisions count
up from the first.  Settings are saved in answer to a request that was made of the stored
revision, or by a close that changes one model of the stored settings. -/
def SavesInOrder : ItemRule := fun s l x =>
  revisions l ++ [0] = (List.range (s.store.policy.revision + 1)).reverse ∧
  OnEvent (fun s l t e => ∀ p, e = .policy p →
    (∃ q, programOf l t = some (.putPolicy q) ∧ q.revision = s.store.policy.revision ∧ p = q.bump) ∨
      ∃ id m, programOf l t = some (.close id true) ∧
        p = (s.store.policy.stopMaintaining m).bump) s l x

/-- Only a saved policy adds a revision. -/
theorem revisions_of_ne {t : ℕ} {x : LogEntry} {l : List LogItem} (h : ∀ p, x ≠ .emit (.policy p)) :
    revisions (.task t x :: l) = revisions l := by
  cases x with
  | emit e =>
    cases e with
    | policy p => exact absurd rfl (h p)
    | _ => rfl
  | _ => rfl

/-- Only a saved policy changes the policy. -/
theorem policy_apply_of_ne (s : World) (t : ℕ) {e : Event} (h : ∀ p, e ≠ .policy p) :
    (s.apply t e).store.policy = s.store.policy := by
  cases e with
  | policy p => exact absurd rfl (h p)
  | _ => rfl

/-- Settings are saved under the revision after the stored one. -/
theorem revision_of_powerOk {a : Agent} {s : World} {p : Policy} (h : PowerOk a s (.policy p)) :
    p.revision = s.store.policy.revision + 1 := by
  rcases h with ⟨q, -, hq, rfl⟩ | ⟨_, m, -, rfl⟩
  · exact congrArg (· + 1) hq
  · rfl

/-- **The revisions count up to the present one**, in every run. -/
theorem maintained_revisions : Maintained (gateway cfg) powers Installed C fun s l =>
    revisions l ++ [0] = (List.range (s.store.policy.revision + 1)).reverse where
  init {s} h := by
    obtain ⟨_, _, rfl⟩ := h
    rfl
  start {s t p s' l} h _ may _ := by
    rw [store_begin (t := t) may]
    exact h
  wake h _ _ _ _ := h
  emit {s t a e l} h _ ok _ := by
    by_cases he : ∃ p, e = .policy p
    · obtain ⟨p, rfl⟩ := he
      show p.revision :: revisions l ++ [0] = (List.range (p.revision + 1)).reverse
      rw [List.cons_append, h, List.range_succ (n := p.revision), List.reverse_append,
        revision_of_powerOk ok.2]
      rfl
    · have he : ∀ p, e ≠ .policy p := fun p hp => he ⟨p, hp⟩
      rw [revisions_of_ne fun p hp => he p (Entry.emit.inj hp)]
      show _ = (List.range ((s.apply t e).store.policy.revision + 1)).reverse
      rw [policy_apply_of_ne s t he]
      exact h
  toss h _ _ := h
  park h _ _ _ := h
  stop h _ _ _ := h
  drift h _ := h
  crash h _ := h

/-- **No saved settings are lost.**  However the requests that save settings interleave, and
whatever crashes come between, each revision is saved once, over the one before it. -/
theorem savesInOrder : Ensures cfg Always SavesInOrder := by
  refine (Ensures.whilePowered maintained_revisions.traj).and
    (Ensures.poweredEvent fun _ at_ ok p hp => ?_)
  subst hp
  rw [programOf_of_point at_]
  rcases ok.2 with ⟨q, hq, hr, hp⟩ | ⟨id, m, hc, hp⟩
  · exact .inl ⟨q, by rw [hq], hr, hp⟩
  · exact .inr ⟨id, m, by rw [hc], hp⟩

/-! ### The queue -/

/-- The tasks that have joined the queue and not left it, since the last crash. -/
def queueing : List LogItem → List ℕ
  | [] | .crash :: _ => []
  | .task t (.emit .wait) :: l => t :: queueing l
  | .task t (.emit .unwait) :: l => (queueing l).erase t
  | _ :: l => queueing l

/-- The queue is counted right, and holds at most 64 tasks. -/
def QueuesFew : ItemRule := fun s l _ =>
  s.memory.waiting = (queueing l).length ∧ (queueing l).length ≤ 64

/-- Only joining and leaving change the queue. -/
theorem queueing_task {t : ℕ} {x : LogEntry} {l : List LogItem} (hw : x ≠ .emit .wait)
    (hu : x ≠ .emit .unwait) : queueing (.task t x :: l) = queueing l := by
  cases x with
  | emit e =>
    cases e with
    | wait => exact absurd rfl hw
    | unwait => exact absurd rfl hu
    | _ => rfl
  | _ => rfl

/-- No other event concerns the queue. -/
theorem waits_emit (pc : Pc) {e : Event} (hw : e ≠ .wait) (hu : e ≠ .unwait) :
    (pc.emit e).waits = pc.waits := by
  cases he : e.holding with
  | false => exact (pc.same_emit he).waits
  | true =>
    cases e with
    | wait => exact absurd rfl hw
    | unwait => exact absurd rfl hu
    | spawn handle w =>
      cases w
      all_goals rfl
    | maintenance on =>
      cases on
      all_goals rfl
    | lock | unlock | reserve | unreserve | admitted | dismiss | cleaned => rfl
    | _ => cases he

/-- Only they change the counter. -/
theorem waiting_apply (s : World) (t : ℕ) {e : Event} (hw : e ≠ .wait) (hu : e ≠ .unwait) :
    (s.apply t e).memory.waiting = s.memory.waiting := by
  cases e with
  | wait => exact absurd rfl hw
  | unwait => exact absurd rfl hu
  | _ => rfl

/-- The count is that of the log, and the tasks that are to leave the queue are in it. -/
structure Queued (s : World) (P : ℕ → Option Pc) (l : List LogItem) : Prop where
  counted : s.memory.waiting = (queueing l).length
  few : (queueing l).length ≤ 64
  joined : ∀ t pc, P t = some pc → pc.waits = true → t ∈ queueing l

/-- A step that leaves the queue keeps the invariant. -/
theorem Queued.update {s s' : World} {P : ℕ → Option Pc} {l l' : List LogItem} {t : ℕ} {v : Option Pc}
    (h : Queued s P l) (hs : s'.memory.waiting = s.memory.waiting) (hl : queueing l' = queueing l)
    (hv : ∀ pc, v = some pc → pc.waits = true → t ∈ queueing l) :
    Queued s' (Function.update P t v) l' where
  counted := by rw [hs, hl, h.counted]
  few := by rw [hl]; exact h.few
  joined u pc hpc hw := by
    rw [hl]
    rcases eq_or_ne u t with rfl | hu
    · exact hv pc (by rwa [Function.update_self] at hpc) hw
    · exact h.joined u pc (by rwa [Function.update_of_ne hu] at hpc) hw

/-- An event that is in order keeps it, if there is room for who joins. -/
theorem Queued.emit {s : World} {l : List LogItem} {t : ℕ} {pc : Pc} {e : Event}
    (h : Queued s (pcAt l) l) (at_ : pcAt l t = some pc) (ok : EventOk cfg pc s e)
    (room : e = .wait → s.memory.waiting < 64) :
    Queued (s.apply t e) (Function.update (pcAt l) t (some (pc.emit e))) (.task t (.emit e) :: l) := by
  by_cases hw : e = .wait
  · subst hw
    refine ⟨?_, ?_, fun u q hq hqw => ?_⟩
    · show s.memory.waiting + 1 = ((queueing l).length + 1 : ℕ)
      rw [h.counted]
      rfl
    · show (queueing l).length + 1 ≤ 64
      have := room rfl
      rw [h.counted] at this
      omega
    · rcases eq_or_ne u t with rfl | hu
      · exact List.mem_cons_self
      · exact List.mem_cons_of_mem _ (h.joined u q (by rwa [Function.update_of_ne hu] at hq) hqw)
  by_cases hu : e = .unwait
  · subst hu
    have mine : t ∈ queueing l := h.joined t pc at_ ok
    have pos := List.length_pos_of_mem mine
    refine ⟨?_, ?_, fun u q hq hqw => ?_⟩
    · show s.memory.waiting - 1 = (((queueing l).erase t).length : ℕ)
      rw [h.counted, List.length_erase_of_mem mine]
      omega
    · exact (List.length_erase_le ..).trans h.few
    · rcases eq_or_ne u t with rfl | hu
      · rw [Function.update_self] at hq
        obtain rfl := Option.some.inj hq
        cases hqw
      · rw [Function.update_of_ne hu] at hq
        exact (List.mem_erase_of_ne hu).2 (h.joined u q hq hqw)
  refine h.update (waiting_apply s t hw hu) (queueing_task (fun hx => hw (Entry.emit.inj hx))
    fun hx => hu (Entry.emit.inj hx)) fun q hq hqw => ?_
  obtain rfl := Option.some.inj hq
  rw [waits_emit pc hw hu] at hqw
  exact h.joined t pc at_ hqw

/-- **The counter counts the queue**, in every run. -/
theorem tracked_queue (hC : ∀ {s l x}, C s l x →
      OnEvent (fun s _ _ e => e = .wait → s.memory.waiting < 64) s l x) :
    Tracked cfg C Queued where
  init {s} h := by
    obtain ⟨_, _, rfl⟩ := h
    exact ⟨rfl, Nat.zero_le _, fun _ _ h => (by cases h)⟩
  start {s t p s' l} h _ may _ := by
    refine h.update (memory_begin may).2.2.1 rfl fun q hq hw => ?_
    obtain rfl := Option.some.inj hq
    rw [(Pc.enter_holds p).2.2.1] at hw
    cases hw
  emit h at_ ok c _ := h.emit at_ ok (hC c)
  still {s s' t pc pc' a l} h at_ hs hpc ha _ := by
    refine h.update hs.waiting (queueing_task (fun hx => ?_) fun hx => ?_) fun q hq hw => ?_
    · cases ha _ hx
    · cases ha _ hx
    · obtain rfl := Option.some.inj hq
      exact h.joined t pc at_ (hpc.waits ▸ hw)
  stop h _ _ _ := h.update rfl rfl fun _ hq => (by cases hq)
  drift h := ⟨h.counted, h.few, h.joined⟩
  crash _ := ⟨rfl, Nat.zero_le _, fun _ _ h => (by cases h)⟩

/-- Requests join the queue while there is room in it. -/
theorem joinsWithRoom : Ensures cfg C (OnEvent fun s _ _ e => e = .wait → s.memory.waiting < 64) :=
  Ensures.poweredEvent fun _ _ ok he => by
    subst he
    exact ok.2

/-- **The queue holds at most 64 requests**, and its count is never negative. -/
theorem queuesFew : Ensures cfg Always QueuesFew := by
  refine joinsWithRoom.knowing (Ensures.always fun tr => ?_)
  have h := (tracked_queue fun c => c.2).run tr
  exact ⟨h.counted, h.few⟩

/-! ### Revoked keys -/

/-- The key was stored with these fields. -/
def KeyStored (k : ApiKey) (l : List LogItem) : Prop := ∃ t, .task t (.emit (.key k)) ∈ l

/-- A key was stored before, or is the one stored last. -/
theorem KeyStored.elim {k : ApiKey} {x : LogItem} {l : List LogItem} (h : KeyStored k (x :: l)) :
    KeyStored k l ∨ ∃ t, x = .task t (.emit (.key k)) := by
  obtain ⟨t, ht⟩ := h
  rcases List.mem_cons.1 ht with hx | ht
  · exact .inr ⟨t, hx.symm⟩
  · exact .inl ⟨t, ht⟩

/-- The token of a new key was never stored. -/
def FreshTokens : ItemRule
  | _, l, .task _ (.start (.createKey key _)) => ∀ k, KeyStored k l → k.token ≠ key.token
  | _, _, _ => True

/-- A request is not dispatched once its key was stored as revoked. -/
def HeedsRevocation : ItemRule := OnPark fun _ l _ i => ∀ row m call, i = .dispatch row m call →
  ∀ k, KeyStored k l → k.enabled = false → k.token ≠ call.token

/-- A task of `create_key` has not yet awaited, and while it has not made its key, no key has
its token. -/
def Making (l : List LogItem) (a : Agent) : Prop :=
  ∀ key idem, a.program = .createKey key idem →
    a.site = none ∧ (a.made = false → ∀ k, KeyStored k l → k.token ≠ key.token)

/-- Only an await suspends a task. -/
theorem sited_powers : Sited powers where
  enter _ := rfl
  wake _ i _ := by
    cases i with
    | walletSessions => rfl
    | _ => rfl
  emit {a} e h := by
    cases e with
    | key | walletScan | finish => exact h
    | _ => exact h
  toss _ _ h := h
  park _ _ := rfl

/-- The key that was stored as revoked is stored so still. -/
def StaysRevoked (s : World) (l : List LogItem) : Prop :=
  ∀ k, KeyStored k l → k.enabled = false →
    ∃ old, s.store.keys.get k.token = some old ∧ old.enabled = false

/-- Only a key that is stored changes the keys. -/
theorem keys_apply_of_ne (s : World) (t : ℕ) {e : Event} (h : ∀ k, e ≠ .key k) :
    (s.apply t e).store.keys = s.store.keys := by
  cases e with
  | key k => exact absurd rfl (h k)
  | _ => rfl

/-- Only a key event stores a key. -/
theorem KeyStored.of_ne {k : ApiKey} {t : ℕ} {x : LogEntry} {l : List LogItem}
    (h : KeyStored k (.task t x :: l)) (hx : ∀ k, x ≠ .emit (.key k)) : KeyStored k l := by
  rcases h.elim with h | ⟨u, hu⟩
  · exact h
  · cases hu
    exact absurd rfl (hx k)

/-- **One event keeps revoked keys revoked.** -/
theorem StaysRevoked.emit {s : World} {l : List LogItem} {t : ℕ} {a : Agent} {e : Event}
    (h : StaysRevoked s l) (making : Making l a) (ok : PowerOk a s e) :
    StaysRevoked (s.apply t e) (.task t (.emit e) :: l) := by
  by_cases he : ∃ k, e = .key k
  · obtain ⟨k', rfl⟩ := he
    intro k hk off
    show ∃ old, (s.store.keys.put k').get k.token = some old ∧ old.enabled = false
    by_cases hkt : k.token = k'.token
    · refine ⟨k', by rw [hkt, Table.get_put_self], ?_⟩
      rcases hk.elim with before | ⟨u, hu⟩
      · rcases ok with ⟨old, hold, -, hon⟩ | ⟨hm, key, idem, hp, rfl⟩
        · -- The key was made of the one that is stored as revoked.
          obtain ⟨old', hold', hoff⟩ := h k before off
          obtain rfl : old' = old := Option.some.inj (hold'.symm.trans (hkt ▸ hold))
          by_contra hk'
          exact Bool.false_ne_true (hoff.symm.trans (hon (by simpa using hk')))
        · exact absurd hkt (((making key idem hp).2 hm) k before)
      · cases hu
        exact off
    · rw [Table.get_put_ne hkt]
      rcases hk.elim with hk | ⟨u, hu⟩
      · exact h k hk off
      · cases hu
        exact absurd rfl hkt
  · have he : ∀ k, e ≠ .key k := fun k hk => he ⟨k, hk⟩
    intro k hk off
    rw [keys_apply_of_ne s t he]
    exact h k (hk.of_ne fun k' hx => he k' (Entry.emit.inj hx)) off

/-- The tasks of `create_key` and the revoked keys, over whole runs. -/
structure KeysKept (s : World) (l : List LogItem) : Prop where
  making : ∀ t a, powers.point t l = some a → Making l a
  revoked : StaysRevoked s l

/-- A task that stores no key goes on making its own. -/
theorem Making.of_ne {t : ℕ} {x : LogEntry} {l : List LogItem} {a : Agent} (h : Making l a)
    (hx : ∀ k, x ≠ .emit (.key k)) : Making (.task t x :: l) a := fun key idem hp =>
  ⟨(h key idem hp).1, fun hm k hk => (h key idem hp).2 hm k (hk.of_ne hx)⟩

/-- A suspended task is none of `create_key`. -/
theorem Making.of_site {l l' : List LogItem} {a : Agent} {i : Site} (h : Making l a)
    (hi : a.site = some i) : Making l' a := by
  intro key idem hp
  rw [(h key idem hp).1] at hi
  cases hi

/-- A step keeps the invariant if its own task goes on and what is revoked stays so. -/
theorem KeysKept.task {s s' : World} {l : List LogItem} {t : ℕ} {x : LogEntry} (h : KeysKept s l)
    (alone : Alone powers l (.task t x))
    (own : ∀ v, powers.advance x (powers.point t l) = some v → Making (.task t x :: l) v)
    (revoked : StaysRevoked s' (.task t x :: l)) : KeysKept s' (.task t x :: l) where
  making := by
    refine forall_point (fun v hv => own v hv) fun u q hu hq => ?_
    obtain ⟨i, hi⟩ := alone.1 u q hu hq
    exact (h.making u q hq).of_site hi
  revoked := revoked

/-- A step that stores no key leaves the revoked ones revoked. -/
theorem StaysRevoked.of_ne {s s' : World} {t : ℕ} {x : LogEntry} {l : List LogItem}
    (h : StaysRevoked s l) (hs : s'.store.keys = s.store.keys) (hx : ∀ k, x ≠ .emit (.key k)) :
    StaysRevoked s' (.task t x :: l) := by
  intro k hk off
  rw [hs]
  exact h k (hk.of_ne hx) off

/-- **Revoked keys stay revoked**, in every run with fresh tokens. -/
theorem maintained_keysKept (hC : ∀ {s l x}, C s l x → FreshTokens s l x ∧ Alone powers l x) :
    Maintained (gateway cfg) powers Installed C KeysKept where
  init _ := ⟨fun _ _ h => (by cases h), fun _ ⟨_, h⟩ => (by cases h)⟩
  start {s t p s' l} h fresh may c := by
    refine h.task (hC c).2 (fun v hv => ?_) (h.revoked.of_ne (by rw [store_begin (t := t) may]) fun _ hx => (by cases hx))
    obtain rfl := Option.some.inj hv
    rintro key idem hp
    refine ⟨rfl, fun _ k hk => ?_⟩
    have hp : p = .createKey key idem := hp
    subst hp
    exact (hC c).1 k (hk.of_ne fun _ hx => (by cases hx))
  wake {s t a i r l} h at_ site _ c := by
    refine h.task (hC c).2 (fun v hv => ?_) (h.revoked.of_ne rfl fun _ hx => (by cases hx))
    rw [at_] at hv
    obtain rfl := Option.some.inj hv
    intro key idem hp
    have := ((h.making t a at_) key idem ((Agent.next_program ..).symm.trans hp)).1
    rw [show a.site = some i from site] at this
    cases this
  emit {s t a e l} h at_ ok c := by
    refine h.task (hC c).2 (fun v hv => ?_) (h.revoked.emit (h.making t a at_) ok.2)
    rw [at_] at hv
    obtain rfl := Option.some.inj hv
    by_cases he : ∃ k, e = .key k
    · obtain ⟨k, rfl⟩ := he
      exact fun key idem hp => ⟨((h.making t a at_) key idem hp).1, fun hm => (by cases hm)⟩
    · have he : ∀ k, e ≠ .key k := fun k hk => he ⟨k, hk⟩
      have same : (a.next (.emit e)).site = a.site ∧ (a.next (.emit e)).made = a.made := by
        cases e with
        | key k => exact absurd rfl (he k)
        | walletScan | finish => exact ⟨rfl, rfl⟩
        | _ => exact ⟨rfl, rfl⟩
      intro key idem hp
      obtain ⟨site, free⟩ := (h.making t a at_).of_ne (t := t)
        (fun k hx => he k (Entry.emit.inj hx)) key idem ((Agent.next_program ..).symm.trans hp)
      exact ⟨same.1.trans site, fun hm => free (same.2.symm.trans hm)⟩
  toss {s t a q b l} h at_ c := by
    refine h.task (hC c).2 (fun v hv => ?_) (h.revoked.of_ne rfl fun _ hx => (by cases hx))
    rw [at_] at hv
    obtain rfl := Option.some.inj hv
    exact (h.making t a at_).of_ne fun _ hx => (by cases hx)
  park {s t a i l} h at_ ok c := by
    refine h.task (hC c).2 (fun v hv => ?_) (h.revoked.of_ne rfl fun _ hx => (by cases hx))
    rw [at_] at hv
    obtain rfl := Option.some.inj hv
    exact fun key idem hp => absurd hp (ok.2.1 key idem)
  stop {s t a l} h _ _ c := by
    refine h.task (hC c).2 (fun v hv => ?_) (h.revoked.of_ne rfl fun _ hx => (by cases hx))
    cases hv
  drift {s d l} h _ := by
    have old : ∀ {k}, KeyStored k (.drift d :: l) → KeyStored k l := fun hk =>
      hk.elim.resolve_right fun ⟨_, hu⟩ => (by cases hu)
    exact ⟨fun t a ha key idem hp => ⟨(h.making t a ha key idem hp).1,
      fun hm k hk => (h.making t a ha key idem hp).2 hm k (old hk)⟩, fun k hk => h.revoked k (old hk)⟩
  crash {s l} h _ := by
    refine ⟨fun _ _ ha => (by cases ha), fun k hk => h.revoked k ?_⟩
    exact hk.elim.resolve_right fun ⟨_, hu⟩ => (by cases hu)

/-- **Revocation is final.**  However requests, key edits, revocations and crashes interleave,
from the moment a key is stored as revoked no request that carries its token is dispatched to a
provider, whenever that request was made. -/
theorem revocationIsFinal : Ensures cfg FreshTokens HeedsRevocation := by
  have kept : Ensures cfg FreshTokens fun s l _ => StaysRevoked s l := by
    refine Ensures.whilePowered fun tr => ?_
    exact ((maintained_keysKept fun c => c).traj (Traj.alone sited_powers tr)).revoked
  have enabled : Ensures cfg FreshTokens (OnPark fun s _ _ i => ∀ row m call,
      i = .dispatch row m call → ∃ k, s.store.keys.get call.token = some k ∧ k.enabled = true) := by
    refine Ensures.park fun {s P l t pc i} _ _ ok _ row m call hi => ?_
    subst hi
    obtain ⟨k, hk, on, -⟩ := Dispatched.key ok
    exact ⟨k, hk, on⟩
  refine (kept.and enabled).imp fun {s l x} h => ?_
  cases x with
  | task t a =>
    cases a with
    | park i =>
      intro row m call hi k hk off same
      obtain ⟨old, hold, hoff⟩ := h.1 k hk off
      obtain ⟨k', hk', on⟩ := h.2 row m call hi
      obtain rfl : old = k' := Option.some.inj (hold.symm.trans (same ▸ hk'))
      exact Bool.false_ne_true (hoff.symm.trans on)
    | _ => exact trivial
  | _ => exact trivial

/-- Whoever is careful makes new tokens. -/
theorem freshTokens_of_careful {s : World} {l : List LogItem} {x : LogItem}
    (h : careful s l x = true) : FreshTokens s l x := by
  cases x with
  | task t a =>
    cases a with
    | start p =>
      cases p with
      | createKey key idem =>
        rintro k ⟨u, hk⟩
        exact careful_createKey h hk
      | _ => exact trivial
    | _ => exact trivial
  | _ => exact trivial

/-- A request is dispatched after another key was revoked. -/
theorem revocationIsFinal_day : Exhibits {} FreshTokens HeedsRevocation Sample.dispatches :=
  revocationIsFinal.exhibit (Sample.day_exhibits (fun _ _ _ => freshTokens_of_careful) (by simp))

end MorpheusGateway
