/-
# A maintenance ends

A maintenance is on while a restart is in one of its phases: the request that asked for it
still answers, its task is to start, or its task runs (`tracked_attended`).  A task that is
done has no phase left, so when the last restart is over the gateway admits again.

The three store operations outside the `try` of the restart are the gap: the first write of
`restart`, and of `_restart` the policy read in front of it and the write after it.  One that
fails leaves the maintenance on with nobody to end it (`not_endsMaintenance`).

That the rating is stored only after every check is read off the course of the task: the
event is met at one place of the program, and what stands before it has run.
-/

import MorpheusGateway.Guarantees.Restarting
import MorpheusGateway.Protocol.Courses

namespace MorpheusGateway

open Contract

variable {cfg : Config} {C : ItemRule}

/-! ### The guarantee -/

/-- Up to the log `l`, the helper has answered the restart `t` that it succeeded, and the
identity, the balances and the reconciliation were then found good.  The run began in `s₀`. -/
def Checked (cfg : Config) (s₀ : World) (t : ℕ) (l : List LogItem) : Prop :=
  ∃ op a result identity b balances, ∃ l₁ l₂ l₃ l₄ l₅ : List LogItem,
    RanTo cfg s₀ t (Coro.suspend (.helperRestart op) : Op Answer) l₁ (.ok a) l₂ ∧
    helperRequest a = .ok result ∧
    RanTo cfg s₀ t (Sessions.verifyIdentity cfg .restart) l₂ (.ok identity) l₃ ∧
    RanTo cfg s₀ t (Coro.suspend .balances : Op Answer) l₃ (.ok b) l₄ ∧
    readBalances b = .ok balances ∧
    RanTo cfg s₀ t (Sessions.reconcile cfg) l₄ (.ok ()) l₅ ∧
    l = .task t (.toss .write false) :: l₅

/-- While a maintenance is on, a restart is in progress.  A task that ends holds no wallet
lock and leaves no maintenance of its own behind, and none at all if it was a restart.  A
rating is stored as applied when all was checked. -/
def EndsMaintenance (cfg : Config) : ItemRule := fun s l x =>
  (s.memory.maintenance = true → ∃ y, InPhase s (pcAt l) y) ∧
  OnStop (fun s l t => s.memory.lock ≠ some t ∧
    (s.memory.maintenance = true → ∃ y, InPhase s (pcAt l) y ∧ y ≠ .claimed t ∧ y ≠ .running t) ∧
    ∀ handle op i a l₀, started t l = some (.task handle (.restart op i a), l₀) →
      s.memory.maintenance = false) s l x ∧
  OnEvent (fun s l t e => match e with
    | .appliedRating _ => ∃ s₀, Installed s₀ ∧ s = replay (gateway cfg) s₀ l ∧ Checked cfg s₀ t l
    | _ => True) s l x

/-- No store operation fails that a maintenance does not survive. -/
def RestartsStored : ItemRule
  | _, _, .task _ (.toss .restart true) => False
  | _, _, _ => True

/-! ### While a maintenance is on, a restart is in progress -/

/-- A maintenance that is on has a restart. -/
def Attended (s : World) (P : ℕ → Option Pc) : Prop :=
  s.memory.maintenance = true → ∃ x, InPhase s P x

/-- A phase goes on while its task holds on to it. -/
theorem InPhase.kept {s s' : World} {P : ℕ → Option Pc} {t : ℕ} {pc pc' : Pc} {x : Phase}
    (h : InPhase s P x) (at_ : P t = some pc)
    (hs : restarts s.memory.spawned ≤ restarts s'.memory.spawned)
    (hc : pc.claimed = true → pc'.claimed = true)
    (hr : pc.restarting.isSome = true → pc'.restarting.isSome = true) :
    InPhase s' (Function.update P t (some pc')) x := by
  cases x with
  | claimed u =>
    obtain ⟨q, hq, h⟩ := h
    rcases eq_or_ne u t with rfl | hu
    · obtain rfl := Option.some.inj (at_.symm.trans hq)
      exact ⟨pc', Function.update_self .., hc h⟩
    · exact ⟨q, (Function.update_of_ne hu ..).trans hq, h⟩
  | spawned => exact lt_of_lt_of_le h hs
  | running u =>
    obtain ⟨q, hq, h⟩ := h
    rcases eq_or_ne u t with rfl | hu
    · obtain rfl := Option.some.inj (at_.symm.trans hq)
      exact ⟨pc', Function.update_self .., hr h⟩
    · exact ⟨q, (Function.update_of_ne hu ..).trans hq, h⟩

/-- A phase of another task goes on. -/
theorem InPhase.others {s s' : World} {P : ℕ → Option Pc} {t : ℕ} {v : Option Pc} {x : Phase}
    (h : InPhase s P x) (hs : restarts s.memory.spawned ≤ restarts s'.memory.spawned)
    (hc : x ≠ .claimed t) (hr : x ≠ .running t) : InPhase s' (Function.update P t v) x := by
  cases x with
  | claimed u =>
    obtain ⟨q, hq, h⟩ := h
    exact ⟨q, (Function.update_of_ne (fun hu => hc (congrArg _ hu)) ..).trans hq, h⟩
  | spawned => exact lt_of_lt_of_le h hs
  | running u =>
    obtain ⟨q, hq, h⟩ := h
    exact ⟨q, (Function.update_of_ne (fun hu => hr (congrArg _ hu)) ..).trans hq, h⟩

/-- What the task holds of a restart stays with it, unless the event is about a restart. -/
theorem Pc.phase_emit (pc : Pc) {e : Event} (hm : ∀ on, e ≠ .maintenance on)
    (hw : ∀ handle op i a, e ≠ .spawn handle (.restart op i a)) :
    (pc.emit e).claimed = pc.claimed ∧ (pc.emit e).restarting = pc.restarting := by
  cases he : e.holding with
  | false => exact ⟨(pc.same_emit he).claimed, (pc.same_emit he).restarting⟩
  | true =>
    cases e with
    | maintenance on => exact absurd rfl (hm on)
    | spawn handle w =>
      cases w with
      | restart op i a => exact absurd rfl (hw handle op i a)
      | _ => exact ⟨rfl, rfl⟩
    | lock | unlock | reserve | unreserve | wait | unwait | admitted | dismiss | cleaned =>
      exact ⟨rfl, rfl⟩
    | _ => cases he

/-- No other event takes a task off the list or changes the maintenance. -/
theorem restarts_apply (s : World) (t : ℕ) {e : Event} (hm : ∀ on, e ≠ .maintenance on) :
    restarts s.memory.spawned ≤ restarts (s.apply t e).memory.spawned ∧
      (s.apply t e).memory.maintenance = s.memory.maintenance := by
  cases e with
  | maintenance on => exact absurd rfl (hm on)
  | spawn handle w => exact ⟨(List.sublist_cons_self ..).countP_le, rfl⟩
  | _ => exact ⟨le_rfl, rfl⟩

/-- An event keeps the invariant. -/
theorem Attended.emit {s : World} {P : ℕ → Option Pc} {t : ℕ} {pc : Pc} {e : Event}
    (h : Attended s P) (at_ : P t = some pc) :
    Attended (s.apply t e) (Function.update P t (some (pc.emit e))) := by
  intro on
  by_cases hm : ∃ on, e = .maintenance on
  · obtain ⟨b, rfl⟩ := hm
    cases b with
    | true => exact ⟨.claimed t, _, Function.update_self .., rfl⟩
    | false => cases on
  have hm : ∀ on, e ≠ .maintenance on := fun on he => hm ⟨on, he⟩
  obtain ⟨hs, ha⟩ := restarts_apply s t hm
  by_cases hw : ∃ handle op i a, e = .spawn handle (.restart op i a)
  · obtain ⟨handle, op, i, a, rfl⟩ := hw
    exact ⟨.spawned, List.countP_pos_iff.2 ⟨_, List.mem_cons_self, rfl⟩⟩
  obtain ⟨x, hx⟩ := h (ha.symm.trans on)
  obtain ⟨hc, hr⟩ := pc.phase_emit hm fun handle op i a he => hw ⟨handle, op, i, a, he⟩
  exact ⟨x, hx.kept at_ hs (fun h => hc.trans h) fun h => (congrArg _ hr).trans h⟩

/-- A task that starts keeps it. -/
theorem Attended.begin {s s' : World} {P : ℕ → Option Pc} {t : ℕ} {p : Program}
    (h : Attended s P) (fresh : P t = none) (may : s.begin t p = some s') :
    Attended s' (Function.update P t (some (Pc.enter p))) := by
  intro on
  obtain ⟨x, hx⟩ := h ((memory_begin may).2.2.2.2.2.1.symm.trans on)
  have mine : x ≠ .claimed t ∧ x ≠ .running t := by
    constructor
    · rintro rfl
      obtain ⟨q, hq, -⟩ := hx
      cases fresh.symm.trans hq
    · rintro rfl
      obtain ⟨q, hq, -⟩ := hx
      cases fresh.symm.trans hq
  rcases spawned_begin may with ⟨handle, w, rfl, queued, hs⟩ | ⟨-, hs⟩
  · cases hw : w.isRestart with
    | true =>
      cases w with
      | restart op i a => exact ⟨.running t, _, Function.update_self .., rfl⟩
      | _ => cases hw
    | false =>
      refine ⟨x, hx.others ?_ mine.1 mine.2⟩
      rw [hs, restarts, restarts, List.countP_erase, if_neg (by simp [hw])]
      exact le_rfl
  · exact ⟨x, hx.others (by rw [hs]) mine.1 mine.2⟩

/-- **While a maintenance is on, a restart is in progress.** -/
theorem tracked_attended (hC : ∀ {s l x}, C s l x → ∀ t pc, pcAt l t = some pc → pc.stuck = false) :
    Tracked cfg C fun s P _ => Attended s P where
  init {s} h := by
    obtain ⟨_, _, rfl⟩ := h
    exact fun on => nomatch on
  start h fresh may _ := h.begin fresh may
  emit h at_ _ _ _ := h.emit at_
  still {s s' t pc pc' a l} h at_ hs hpc _ _ := by
    intro on
    obtain ⟨x, hx⟩ := h (hs.maintenance.symm.trans on)
    refine ⟨x, hx.kept at_ (by rw [hs.spawned]) (fun h => hpc.claimed.trans h) fun h => ?_⟩
    rw [hpc.restarting]
    exact h
  stop {s t pc l} h at_ ok c := by
    intro on
    obtain ⟨x, hx⟩ := h on
    obtain ⟨hr, hc⟩ := ok.restarting.resolve_left fun hs => nomatch (hC c t pc at_).symm.trans hs
    refine ⟨x, hx.others le_rfl ?_ ?_⟩
    · rintro rfl
      obtain ⟨q, hq, h⟩ := hx
      obtain rfl := Option.some.inj (at_.symm.trans hq)
      cases hc.symm.trans h
    · rintro rfl
      obtain ⟨q, hq, h⟩ := hx
      obtain rfl := Option.some.inj (at_.symm.trans hq)
      rw [hr] at h
      cases h
  drift {s d l} h := fun on => (h on).imp fun x hx => by cases x <;> exact hx
  crash _ := fun on => nomatch on

/-! ### The end of a restart -/

/-- A task is never stuck if no such operation fails. -/
theorem undisturbed_unstuck (hC : ∀ {s l x}, C s l x → RestartsStored s l x) :
    Undisturbed (gateway cfg) (protocol cfg) C fun _ _ pc => pc.stuck = false where
  enter {s t p s' l} _ _ := by
    cases p with
    | task handle w => cases w <;> rfl
    | _ => rfl
  begin _ h _ := h
  wake h _ _ _ := h
  emit {s t pc e l} h _ _ _ := (stuck_emit pc e).trans h
  other _ hu _ _ _ _ _ := hu
  toss {s t pc q b l} h c := by
    rcases stuck_toss pc q b with hs | ⟨rfl, rfl⟩
    · exact hs.trans h
    · exact False.elim (hC c)
  park h _ _ _ := h
  drift h _ := h

/-- A restart that has run to its end has ended the maintenance. -/
theorem lifted_of_ran {s₀ : World} {t handle : ℕ} {op : Operation} {i a : Bool} {l₀ l : List LogItem}
    (stored : ∀ {x m}, x :: m <:+ l → RestartsStored (replay (gateway cfg) s₀ m) m x)
    (h : RanTo cfg s₀ t (body cfg t (.task handle (.restart op i a))) l₀ (.ok ()) l) :
    (replay (gateway cfg) s₀ l).memory.maintenance = false := by
  have failed : ∀ {y m}, l = y :: .task t (.toss .restart true) :: m → False := fun hl =>
    stored (x := .task t (.toss .restart true)) (hl ▸ List.suffix_cons ..)
  simp only [RanTo, Contract.Ran, body, taskBody, settled, Sessions._restart, policy, leads_bind',
    leads_attempt, leads_perform, leads_fetch, leads_store, leads_event, false_or] at h
  rcases h with ⟨-, h⟩ | h
  · exact (failed h.symm).elim
  rcases (leads_iff _).1 h with ⟨r, m, -, ⟨-, h⟩ | h | h⟩ | ⟨_, _, -, h⟩
  · exact (failed h.symm).elim
  · split at h
    all_goals
      obtain ⟨-, rfl⟩ := h
      rfl
  · split at h
    all_goals
      obtain ⟨-, rfl⟩ := h
      rfl
  · exact h.elim

/-! ### The applied rating -/

/-- What no restart does stores no rating. -/
theorem not_meets_rating {s₀ : World} {t : ℕ} {α : Type} {c : Op α} {r : ℕ} {l l' : List LogItem}
    (hc : ∀ s, Quiet cfg t Anywhere c {} s) :
    ¬(protocol cfg).Meets (gateway cfg) s₀ t c l (.emit (.appliedRating r)) l' := by
  intro h
  have idle : ∀ (pc : Pc) (x : LogEntry), pc.restarting = none → (pc.next x).restarting = none := by
    intro pc x hr
    cases x with
    | emit e => exact (restarting_emit pc e).elim (fun h => h.trans hr) And.right
    | toss q b => exact (pc.same_toss q b).restarting.trans hr
    | _ => exact hr
  rcases (leads_iff c).1 (leads_wp (J := fun pc => pc.restarting = none) idle c (hc _) rfl h) with
    ⟨_, _, -, -, h⟩ | ⟨x, m, -, ⟨pc, hr, ok⟩, rfl, rfl⟩
  · exact h
  · have ok : pc.restarting.isSome = true := ok
    rw [hr] at ok
    cases ok

/-- The drain stores no rating as applied. -/
theorem drain_no_rating {s₀ : World} {t : ℕ} {i : Bool} {r : ℕ} {l l' : List LogItem} :
    ¬(protocol cfg).Meets (gateway cfg) s₀ t (Sessions.drain i) l (.emit (.appliedRating r)) l' := by
  intro h
  have last : ∀ {m}, ¬(protocol cfg).Meets (gateway cfg) s₀ t lockDrained m (.emit (.appliedRating r)) l' := by
    intro m h
    simp only [lockDrained, Contract.Meets, leads_bind', leads_memory, leads_ite, leads_suspend, leads_perform] at h
    rcases h with ⟨-, h | ⟨n, a, -, -, -, h⟩⟩ | ⟨-, h⟩
    · simp at h
    · split at h
      all_goals simp at h
    · simp at h
  rcases (meets_bind _).1 h with h | ⟨_, m, -, h⟩
  · simp [Contract.Meets] at h
  split at h
  · rcases (meets_bind _).1 h with h | ⟨_, m, -, h⟩
    · simp [Contract.Meets] at h
    split at h
    · exact last h
    all_goals simp [Contract.Meets] at h
  · exact last h

/-- Where the rating is stored as applied, the node was checked. -/
theorem checked_of_node {s₀ : World} {t : ℕ} {op : Operation} {p : Policy} {a : Bool} {r : ℕ}
    {l₀ l : List LogItem}
    (h : (protocol cfg).Meets (gateway cfg) s₀ t (Sessions.restartNode cfg op p a) l₀
      (.emit (.appliedRating r)) l) : Checked cfg s₀ t l := by
  have verified : ∀ s, Quiet cfg t Anywhere (Sessions.verifyIdentity cfg .restart) {} s := fun s =>
    quiet_verifyIdentity (s := s) (trivial : AwaitOk cfg {} s (.identity .restart)) fun _ => trivial
  rcases (meets_bind _).1 h with h | ⟨_, l₁, -, h⟩
  · simp [Contract.Meets] at h
  rcases (meets_bind _).1 h with h | ⟨answer, l₂, hpost, h⟩
  · simp [Contract.Meets] at h
  rcases (meets_bind _).1 h with h | ⟨_, _, hresult, h⟩
  · exact (not_meets_ofExcept ((meets_discard _).1 h)).elim
  obtain ⟨result, hresult⟩ := (ran_discard _).1 hresult
  obtain ⟨hok, rfl⟩ : _ ∧ _ := (leads_ofExcept _).1 hresult
  rcases (meets_bind _).1 h with h | ⟨_, l₃, hidentity, h⟩
  · exact (not_meets_rating verified ((meets_discard _).1 h)).elim
  obtain ⟨identity, hidentity⟩ := (ran_discard _).1 hidentity
  rcases (meets_bind _).1 h with h | ⟨b, l₄, hasked, h⟩
  · simp [Contract.Meets] at h
  rcases (meets_bind _).1 h with h | ⟨_, _, hbalances, h⟩
  · exact (not_meets_ofExcept ((meets_discard _).1 h)).elim
  obtain ⟨balances, hbalances⟩ := (ran_discard _).1 hbalances
  obtain ⟨hread, rfl⟩ : _ ∧ _ := (leads_ofExcept _).1 hbalances
  rcases (meets_bind _).1 h with h | ⟨_, l₅, hreconciled, h⟩
  · exact (not_meets_rating (fun s => quiet_reconcile ⟨⟨rfl, rfl, rfl, rfl⟩, trivial⟩) h).elim
  refine ⟨op, answer, result, identity, b, balances, l₁, _, l₃, _, l₅, hpost, hok, hidentity,
    hasked, hread, hreconciled, ?_⟩
  split at h
  · rcases (leads_store _ _).1 h with h | ⟨-, h⟩ | h
    · exact h.elim
    · exact h.symm
    · exact h.elim
  · simp [Contract.Meets] at h

/-- So it was in the whole task. -/
theorem checked_of_met {s₀ : World} {t handle : ℕ} {op : Operation} {i a : Bool} {r : ℕ}
    {l₀ l : List LogItem}
    (h : (protocol cfg).Meets (gateway cfg) s₀ t (body cfg t (.task handle (.restart op i a))) l₀
      (.emit (.appliedRating r)) l) : Checked cfg s₀ t l := by
  have store : ∀ {w op q m}, ¬(protocol cfg).Meets (gateway cfg) s₀ t
      (store (.putOperation w op) q) m (.emit (.appliedRating r)) l := by
    intro w op q m h
    simp [Contract.Meets] at h
  rcases (meets_bind _).1 h with h | ⟨_, _, -, h⟩
  · rw [meets_attempt] at h
    rcases (meets_bind _).1 h with h | ⟨p, l₁, -, h⟩
    · simp [Contract.Meets, policy] at h
    rcases (meets_bind _).1 h with h | ⟨p, l₁, -, h⟩
    · rw [meets_attempt] at h
      rcases (meets_bind _).1 h with h | ⟨_, l₂, -, h⟩
      · exact (store ((meets_mapError _ _).1 h)).elim
      rcases (meets_bind _).1 h with h | ⟨_, l₃, -, h⟩
      · exact (drain_no_rating ((meets_mapError _ _).1 h)).elim
      rcases (meets_bind _).1 h with h | ⟨_, l₃, -, h⟩
      · rw [meets_mapError, meets_tryFinally] at h
        rcases h with h | ⟨_, _, -, h⟩
        · exact checked_of_node h
        · simp [Contract.Meets] at h
      · simp [Contract.Meets] at h
    -- After the `try` only the record, the diagnostic and the end of the maintenance follow.
    rcases (meets_bind _).1 h with h | ⟨_, l₃, -, h⟩
    · exact (store h).elim
    rcases (meets_bind _).1 h with h | ⟨_, l₄, -, h⟩
    · simp [Contract.Meets] at h
    rcases (meets_bind _).1 h with h | ⟨_, l₅, -, h⟩
    · simp [Contract.Meets] at h
    · split at h
      all_goals simp [Contract.Meets] at h
  · simp [Contract.Meets] at h

/-! ### All runs -/

/-- No task is stuck, in every such run. -/
theorem Run.unstuck {s : World} {P : ℕ → Option Pc} {run : Option ℕ} {l : List LogItem}
    (tr : Run cfg RestartsStored s P run l) : ∀ t pc, pcAt l t = some pc → pc.stuck = false := by
  rw [← Run.pcs tr]
  exact (undisturbed_unstuck fun c => c).traj tr

/-- A task that holds no part of a restart is in none of its phases. -/
theorem InPhase.not_mine {s : World} {P : ℕ → Option Pc} {t : ℕ} {pc : Pc} {x : Phase}
    (h : InPhase s P x) (at_ : P t = some pc) (hc : pc.claimed = false) (hr : pc.restarting = none) :
    x ≠ .claimed t ∧ x ≠ .running t := by
  constructor
  · rintro rfl
    obtain ⟨q, hq, h⟩ := h
    obtain rfl := Option.some.inj (at_.symm.trans hq)
    cases hc.symm.trans h
  · rintro rfl
    obtain ⟨q, hq, h⟩ := h
    obtain rfl := Option.some.inj (at_.symm.trans hq)
    rw [hr] at h
    cases h

/-- Only the task of a restart has one running. -/
theorem started_of_restarting {l : List LogItem} {t : ℕ} {pc : Pc} (at_ : pcAt l t = some pc)
    (hr : pc.restarting.isSome = true) :
    ∃ handle op i a l₀, started t l = some (.task handle (.restart op i a), l₀) := by
  induction l generalizing pc with
  | nil => cases at_
  | cons x l ih =>
    cases x with
    | drift d => exact ih at_ hr
    | crash => cases at_
    | task u e =>
      rw [pcAt_task] at at_
      rcases eq_or_ne t u with rfl | hu
      · rw [Function.update_self] at at_
        cases e with
        | start q =>
          obtain rfl := Option.some.inj at_
          cases q with
          | task handle w =>
            cases w with
            | restart op i a => exact ⟨handle, op, i, a, _, if_pos rfl⟩
            | _ => cases hr
          | _ => cases hr
        | stop => cases at_
        | emit e =>
          obtain ⟨q, hq, rfl⟩ := Option.map_eq_some_iff.1 at_
          refine ih hq ((restarting_emit q e).elim (fun h => h ▸ hr) fun h => ?_)
          have hr : (q.emit e).restarting.isSome = true := hr
          rw [h.2] at hr
          cases hr
        | toss c b =>
          obtain ⟨q, hq, rfl⟩ := Option.map_eq_some_iff.1 at_
          exact ih hq ((congrArg _ (q.same_toss c b).restarting).symm.trans hr)
        | wake | park =>
          obtain ⟨q, hq, rfl⟩ := Option.map_eq_some_iff.1 at_
          exact ih hq hr
      · rw [Function.update_of_ne hu] at at_
        obtain ⟨handle, op, i, a, l₀, hl⟩ := ih at_ hr
        refine ⟨handle, op, i, a, l₀, ?_⟩
        cases e with
        | start q => exact (if_neg (Ne.symm hu)).trans hl
        | _ => exact hl

/-- **A maintenance ends**, unless a store operation fails that it does not survive. -/
theorem endsMaintenance (cfg : Config) : Ensures cfg RestartsStored (EndsMaintenance cfg) := by
  have attended : ∀ {s P run l}, Run cfg RestartsStored s P run l → Attended s (pcAt l) := by
    intro s P run l tr
    have known : Run cfg (fun s l x => RestartsStored s l x ∧ ∀ t pc, pcAt l t = some pc →
        pc.stuck = false) s P run l := Traj.knowing Run.unstuck tr
    exact (tracked_attended fun c => c.2).run known
  have stop : Ensures cfg RestartsStored (OnStop fun s l t => s.memory.lock ≠ some t ∧
      (s.memory.maintenance = true → ∃ y, InPhase s (pcAt l) y ∧ y ≠ .claimed t ∧ y ≠ .running t)) := by
    refine Ensures.stop fun {s P l t pc} tr at_ ok _ => ⟨fun hl => ?_, fun on => ?_⟩
    · obtain ⟨q, hq, hl⟩ := (tracked_locks.run tr t).1 hl
      obtain rfl := Option.some.inj (at_.symm.trans hq)
      cases ok.lock.symm.trans hl
    · obtain ⟨y, hy⟩ := attended tr on
      obtain ⟨hr, hc⟩ := ok.restarting.resolve_left fun hs =>
        nomatch (Run.unstuck tr t pc at_).symm.trans hs
      exact ⟨y, hy, hy.not_mine at_ hc hr⟩
  have lifted : Ensures cfg RestartsStored (OnStop fun s l t => ∀ handle op i a l₀,
      started t l = some (.task handle (.restart op i a), l₀) → s.memory.maintenance = false) := by
    refine Ensures.ran fun {s₀ t q l₀ l} _ stored hq hran handle op i a l₁ hs => ?_
    obtain ⟨rfl, rfl⟩ := Prod.mk.inj (Option.some.inj (hq.symm.trans hs))
    exact lifted_of_ran (fun h => stored (h.trans (List.suffix_cons ..))) hran
  have rated : Ensures cfg RestartsStored (OnEvent fun s l t e => ∀ r, e = .appliedRating r →
      ∃ pc, pcAt l t = some pc ∧ pc.restarting.isSome = true) := by
    refine Ensures.emit fun {s P l t pc e} _ at_ ok _ r hr => ⟨pc, at_, ?_⟩
    obtain rfl := hr
    exact ok
  have checked : Ensures cfg RestartsStored (OnEvent fun s l t e => ∀ r, e = .appliedRating r →
      ∀ handle op i a l₀, started t l = some (.task handle (.restart op i a), l₀) →
        ∃ s₀, Installed s₀ ∧ s = replay (gateway cfg) s₀ l ∧ Checked cfg s₀ t l) := by
    refine Ensures.met fun {s₀ t e q l₀ l} init _ hq met r hr handle op i a l₁ hs => ?_
    obtain rfl := hr
    obtain ⟨rfl, rfl⟩ := Prod.mk.inj (Option.some.inj (hq.symm.trans hs))
    exact ⟨s₀, init, rfl, checked_of_met met⟩
  refine ((Ensures.always attended).and ((stop.and lifted).and (rated.and checked))).imp
    fun {s l x} ⟨hon, ⟨hstop, hlift⟩, hrate, hcheck⟩ => ⟨hon, ?_, ?_⟩
  · match x with
    | .task t .stop => exact ⟨hstop.1, hstop.2, hlift⟩
    | .task t (.start _) | .task t (.wake ..) | .task t (.toss ..) | .task t (.park _)
    | .task t (.emit _) | .drift _ | .crash => exact trivial
  · match x with
    | .task t (.emit e) =>
      cases e with
      | appliedRating r =>
        obtain ⟨pc, at_, hr⟩ := hrate r rfl
        obtain ⟨handle, op, i, a, l₀, hs⟩ := started_of_restarting at_ hr
        exact hcheck r rfl handle op i a l₀ hs
      | _ => exact trivial
    | .task t (.start _) | .task t (.wake ..) | .task t (.toss ..) | .task t (.park _)
    | .task t .stop | .drift _ | .crash => exact trivial

/-- The rating in force is a new one. -/
def appliesRating (_ : List LogItem) : LogItem → Bool
  | .task _ (.emit (.appliedRating _)) => true
  | _ => false

/-- A restart applies a rating and ends. -/
theorem endsMaintenance_once : Exhibits { helperConfigured := true } RestartsStored
    (EndsMaintenance { helperConfigured := true }) appliesRating := by
  refine (endsMaintenance _).exhibit (exists_run storesRestart (fun s l x h => ?_) _
    [.start 0 .run [], .wake 0 Sample.identity [], .wake 0 Sample.identity [],
      .wake 0 Sample.balances [], .start 1 (.restart false true) [],
      .start 2 (.task 1 (.restart { queued with id := 0, kind := .applyRating } false true)) [],
      .wake 2 (Sample.ok [("ready", .bool true)]) [], .wake 2 Sample.identity [],
      .wake 2 Sample.balances []]
    (by decide +kernel))
  unfold RestartsStored
  split
  · cases h
  · trivial

/-- The task of a restart that ends has ended the maintenance. -/
def liftsAtEnd (s : World) (l : List LogItem) : LogItem → Bool
  | .task t .stop => match started t l with
    | some (.task _ (.restart ..), _) => !s.memory.maintenance
    | _ => true
  | _ => true

/-- The helper does not answer, and the write that follows the `try` fails. -/
theorem not_endsMaintenance :
    ¬Ensures { helperConfigured := true } Always (EndsMaintenance { helperConfigured := true }) := by
  refine not_ensures liftsAtEnd (fun {s l x} h => ?_)
    [.start 0 .run [], .wake 0 Sample.identity [], .wake 0 Sample.identity [],
      .wake 0 Sample.balances [], .start 1 (.restart true false) [],
      .start 2 (.task 1 (.restart { queued with id := 0 } true false)) []]
    (.wake 2 .timeout [true]) (by decide +kernel)
  unfold liftsAtEnd
  split
  · split
    · rename_i t _ handle op i a l₀ hs
      have hstop : _ ∧ _ ∧ _ := h.2.1
      rw [hstop.2.2 handle op i a l₀ hs]
      rfl
    · rfl
  · rfl

end MorpheusGateway
