/-
# The rating file through power failures

The helper of `NodeHelper.lean`, from system call to system call: `atomic_write` opens the
temporary file, writes it, syncs it, puts it in place and syncs the directory, and the process
or the power may end between any two.  The marker is removed without a sync, so a power
failure may bring it back after an apply has committed, and the next start then takes that
apply back.

Without power failures and without a system call that raises after the file is in place, this
is the supervisor of `NodeHelper.lean` (`refines`).  With them the rating in force is still
one whole rating, and a power failure takes back the last apply at most (`keepsRating`).
-/

import MorpheusGateway.Disk
import MorpheusGateway.NodeHelper

namespace MorpheusGateway
namespace NodeHelper

/-- The supervisor's files. -/
inductive FileName : Type where
  | rating | backup | marker
  deriving DecidableEq

/-- How far an `atomic_write` is: the temporary file is opened, written, synced, in place. -/
inductive WriteStage : Type where
  | opened | written | synced | replaced
  deriving DecidableEq

/-- An `atomic_write`: of which file, what, and how far it is. -/
structure Writing (ρ : Type) where
  name : FileName
  content : ρ
  stage : WriteStage := .opened
  deriving DecidableEq

/-- The supervisor over its directory.  A rating is the text of its file; `previous` is the one
that was in force before the last apply that committed. -/
structure Machine (ρ : Type) where
  phase : Phase ρ := .down
  call : Option (Writing ρ) := none
  disk : Disk FileName ρ
  previous : ρ
  offered : List ρ := []

/-- What can happen. -/
inductive SystemCall (ρ : Type) : Type where
  | boot
  | request (rating : Option ρ)
  | node (ready : Bool)
  /-- An `atomic_write` begins, or `lifespan` finds the rating file. -/
  | begin
  | write (part : ρ)
  | flush
  | fsync
  | replace
  | syncDir
  | unlink
  /-- A system call raises. -/
  | raise
  | kill
  /-- The directory is synced for another file. -/
  | syncOther
  | power (version : ℕ) (lost : ℕ → ρ)

variable {ρ : Type}

/-- What the phase writes, if it does: which file and what. -/
def Phase.writes (default_ pending : ρ) (v : FileName → Option ρ) : Phase ρ → Option (FileName × ρ)
  | .restoring | .rollingBack => (v .backup).map fun b => (.rating, b)
  | .seeding => if (v .rating).isSome then none else some (.rating, default_)
  | .backingUp _ => (v .rating).map fun b => (.backup, b)
  | .marking _ => some (.marker, pending)
  | .writing r => some (.rating, r)
  | _ => none

/-- After the write. -/
def Phase.wrote : Phase ρ → Phase ρ
  | .restoring => .clearing
  | .seeding => .idle
  | .backingUp r => .marking r
  | .marking r => .writing r
  | .writing r => .starting (some r)
  | .rollingBack => .restarting
  | ph => ph

/-- After a system call that raises. -/
def Phase.raised : Phase ρ → Phase ρ
  | .restoring | .clearing | .seeding => .down
  | .backingUp _ | .marking _ | .writing _ | .committing _ | .rollingBack | .rolledBack => .idle
  | ph => ph

/-- The rating that the next start of the helper puts in force. -/
def inForce (default_ : ρ) (v : FileName → Option ρ) : ρ :=
  ((if (v .marker).isSome then v .backup else v .rating)).getD default_

namespace Machine

/-- The rating in force. -/
def effective (default_ : ρ) (m : Machine ρ) : ρ := inForce default_ m.disk.now

/-- The `atomic_write` goes on. -/
def proceed (m : Machine ρ) (stage : WriteStage) (f : Writing ρ → Machine ρ) : Option (Machine ρ) :=
  match m.call with
  | some w => if w.stage = stage then some (f w) else none
  | none => none

/-- One step; `default_` is the rating of the default policy, `pending` what the marker holds,
and `empty` the content of a new file. -/
def step (default_ pending empty : ρ) (m : Machine ρ) : SystemCall ρ → Option (Machine ρ)
  | .boot =>
    if m.phase matches .down then
      some { m with phase := if (m.disk.now .marker).isSome then .restoring else .seeding }
    else none
  | .request r =>
    if m.phase matches .idle then
      some (match r with
        | some r => { m with phase := .backingUp r, offered := r :: m.offered }
        | none => { m with phase := .starting none })
    else none
  | .node ready =>
    match m.phase with
    | .starting r =>
      some { m with phase := if ready then .committing r
        else if (m.disk.now .marker).isSome then .rollingBack else .idle }
    | .restarting => some { m with phase := if ready then .rolledBack else .idle }
    | .idle => some (if ready then m else { m with phase := .down })
    | _ => none
  | .begin =>
    if m.call.isSome then none
    else match m.phase.writes default_ pending m.disk.now with
      | some (n, b) => some { m with call := some ⟨n, b, .opened⟩, disk := m.disk.create n empty }
      | none => if m.phase matches .seeding then some { m with phase := .idle } else none
  | .write part => m.proceed .opened fun w => { m with disk := m.disk.write w.name part }
  | .flush => m.proceed .opened fun w =>
      { m with disk := m.disk.write w.name w.content, call := some { w with stage := .written } }
  | .fsync => m.proceed .written fun w =>
      { m with disk := m.disk.fsync w.name, call := some { w with stage := .synced } }
  | .replace => m.proceed .synced fun w =>
      { m with disk := m.disk.replace w.name, call := some { w with stage := .replaced } }
  | .syncDir => m.proceed .replaced fun _ =>
      { m with disk := m.disk.syncDir, call := none, phase := m.phase.wrote }
  | .unlink =>
    match m.phase with
    | .clearing => some { m with disk := m.disk.unlink .marker, phase := .seeding }
    | .committing (some _) =>
      some { m with disk := m.disk.unlink .marker, phase := .idle, previous := m.effective default_ }
    | .committing none | .rolledBack => some { m with disk := m.disk.unlink .marker, phase := .idle }
    | _ => none
  | .raise => some { m with call := none, phase := m.phase.raised }
  | .kill => some { m with call := none, phase := .down }
  | .syncOther => some { m with disk := m.disk.syncDir }
  | .power version lost => (m.disk.versions[version]?).map fun D =>
      { m with call := none, phase := .down, disk := m.disk.power D lost }

/-- A helper that was never started: there may be no rating file yet. -/
structure Installed (default_ : ρ) (m : Machine ρ) : Prop where
  phase : m.phase = .down
  call : m.call = none
  sound : m.disk.Sound
  one : ∀ v, m.disk.May v → v = m.disk.now
  marker : m.disk.now .marker = none
  backup : m.disk.now .backup = none
  offered : m.offered = (m.disk.now .rating).toList
  previous : m.previous = m.effective default_

/-- The machines reached by steps that satisfy `C`. -/
inductive Reach (default_ pending empty : ρ) (C : Machine ρ → SystemCall ρ → Prop) :
    Machine ρ → Prop
  | installed {m} (h : Installed default_ m) : Reach default_ pending empty C m
  | step {m a o} (reach : Reach default_ pending empty C m) (ok : C m a)
      (step : m.step default_ pending empty a = some o) : Reach default_ pending empty C o

/-- While the marker exists, no plain restart removes it and no apply overwrites the backup,
unless the rating file is what the backup is. -/
def Guarded (m : Machine ρ) : SystemCall ρ → Prop
  | .unlink => m.phase = .committing none → (m.disk.now .marker).isSome →
      m.disk.now .rating = m.disk.now .backup
  | .begin => ∀ r, m.phase = .backingUp r → (m.disk.now .marker).isSome →
      m.disk.now .rating = m.disk.now .backup
  | _ => True

/-- The phase that the files are in: a write is done once the file is in place. -/
def reached (m : Machine ρ) : Phase ρ :=
  match m.call with
  | some w => if w.stage = .replaced then m.phase.wrote else m.phase
  | none => m.phase

end Machine

/-! ### What one write does -/

/-- What holds in the middle of an operation. -/
def Halfway (default_ : ρ) (offered : List ρ) (v : FileName → Option ρ) : Phase ρ → Prop
  | .restoring | .rollingBack => (v .marker).isSome
  | .clearing | .restarting | .rolledBack => (v .marker).isSome ∧ v .rating = v .backup
  | .seeding => v .marker = none
  | .backingUp r => r ∈ offered
  | .marking r => r ∈ offered ∧ v .backup = some (inForce default_ v)
  | .writing r => r ∈ offered ∧ (v .marker).isSome
  | .starting (some r) | .committing (some r) => (v .marker).isSome ∧ v .rating = some r
  | .starting none | .committing none | .idle | .down => True

/-- The files are whole ratings, and there is a backup with the marker. -/
structure Files (default_ : ρ) (offered : List ρ) (v : FileName → Option ρ) : Prop where
  backup : (v .marker).isSome → (v .backup).isSome
  whole : ∀ n, n ≠ .marker → ∀ r, v n = some r → r ∈ default_ :: offered

variable {default_ pending empty : ρ} {offered : List ρ} {v : FileName → Option ρ}

/-- With the marker, the backup is in force. -/
theorem inForce_marked (h : (v .marker).isSome) : inForce default_ v = (v .backup).getD default_ := by
  rw [inForce, if_pos h]

/-- Without it, the rating is. -/
theorem inForce_unmarked (h : v .marker = none) : inForce default_ v = (v .rating).getD default_ := by
  rw [inForce, if_neg (by rw [h]; exact Bool.false_ne_true)]

/-- Writing the rating under the marker changes nothing that is in force. -/
theorem inForce_rating (h : (v .marker).isSome) (b : ρ) :
    inForce default_ (Function.update v .rating (some b)) = inForce default_ v := by
  rw [inForce_marked (v := Function.update v .rating (some b)) h, inForce_marked h]
  rfl

/-- The rating in force may be backed up. -/
theorem inForce_backup {b : ρ} (hb : v .rating = some b)
    (guard : (v .marker).isSome → v .rating = v .backup) :
    inForce default_ v = b ∧ inForce default_ (Function.update v .backup (some b)) = b := by
  cases hm : (v .marker).isSome with
  | true =>
    constructor
    · rw [inForce_marked hm, ← guard hm, hb]
      rfl
    · exact inForce_marked (v := Function.update v .backup (some b)) hm
  | false =>
    have hm : v .marker = none := by simpa using hm
    constructor
    · rw [inForce_unmarked hm, hb]
      rfl
    · rw [inForce_unmarked (v := Function.update v .backup (some b)) hm]
      show (v .rating).getD default_ = b
      rw [hb]
      rfl

/-- **A write is harmless**: what it writes is whole, the rating in force stays, and the next
phase may go on. -/
theorem harmless {ph : Phase ρ} {n : FileName} {b : ρ} (hw : ph.writes default_ pending v = some (n, b))
    (f : Files default_ offered v) (half : Halfway default_ offered v ph)
    (guard : ∀ r, ph = .backingUp r → (v .marker).isSome → v .rating = v .backup) :
    Files default_ offered (Function.update v n (some b)) ∧
    inForce default_ (Function.update v n (some b)) = inForce default_ v ∧
    Halfway default_ offered (Function.update v n (some b)) ph.wrote ∧
    (Function.update v n (some b) .marker = none → Function.update v n (some b) .rating ≠ none) := by
  cases ph with
  | restoring | rollingBack =>
    have hm : (v .marker).isSome := half
    obtain ⟨c, hc, he⟩ := Option.map_eq_some_iff.1 hw
    cases he
    refine ⟨⟨f.backup, fun k hk r hr => ?_⟩, inForce_rating hm b, ⟨hm, hc.symm⟩, fun _ h => (by cases h)⟩
    cases k with
    | rating => exact f.whole .backup (fun e => by cases e) r (hc.trans hr)
    | backup => exact f.whole .backup hk r hr
    | marker => exact absurd rfl hk
  | seeding =>
    have hm : v .marker = none := half
    cases hr : v .rating with
    | some r => simp [Phase.writes, hr] at hw
    | none =>
      simp only [Phase.writes, hr, Option.isSome_none, Bool.false_eq_true, if_false, Option.some.injEq,
        Prod.mk.injEq] at hw
      obtain ⟨rfl, rfl⟩ := hw
      refine ⟨⟨f.backup, fun k hk r hkr => ?_⟩, ?_, trivial, fun _ h => (by cases h)⟩
      · cases k with
        | rating =>
          cases hkr
          exact List.mem_cons_self
        | backup => exact f.whole .backup hk r hkr
        | marker => exact absurd rfl hk
      · rw [inForce_unmarked (v := Function.update v .rating _) hm, inForce_unmarked hm, hr]
        rfl
  | backingUp r =>
    obtain ⟨c, hc, he⟩ := Option.map_eq_some_iff.1 hw
    cases he
    obtain ⟨old, new⟩ := inForce_backup hc (guard r rfl)
    refine ⟨⟨fun _ => rfl, fun k hk x hx => ?_⟩, new.trans old.symm, ⟨half, congrArg some new.symm⟩,
      fun _ h => Option.some_ne_none b (hc.symm.trans h)⟩
    cases k with
    | rating => exact f.whole .rating hk x hx
    | backup => exact f.whole .rating (fun e => by cases e) x (hc.trans hx)
    | marker => exact absurd rfl hk
  | marking r =>
    cases hw
    refine ⟨⟨fun _ => by rw [Function.update_of_ne (fun e => by cases e), half.2]; rfl,
      fun k hk x hx => ?_⟩, ?_, ⟨half.1, rfl⟩, fun h => (by cases h)⟩
    · rw [Function.update_of_ne hk] at hx
      exact f.whole k hk x hx
    · rw [inForce_marked (v := Function.update v .marker _) rfl]
      show (v .backup).getD default_ = _
      rw [half.2]
      rfl
  | writing r =>
    cases hw
    refine ⟨⟨f.backup, fun k hk x hx => ?_⟩, inForce_rating half.2 _, ⟨half.2, rfl⟩,
      fun _ h => (by cases h)⟩
    cases k with
    | rating =>
      cases hx
      exact List.mem_cons_of_mem _ half.1
    | backup => exact f.whole .backup hk x hx
    | marker => exact absurd rfl hk
  | _ => cases hw

/-- More ratings were offered. -/
theorem Files.mono (f : Files default_ offered v) {more : List ρ} (h : ∀ r ∈ offered, r ∈ more) :
    Files default_ more v where
  backup := f.backup
  whole n hn r hr := by
    rcases List.mem_cons.1 (f.whole n hn r hr) with rfl | hr
    · exact List.mem_cons_self
    · exact List.mem_cons_of_mem _ (h r hr)

/-- The phases with an `atomic_write`. -/
def Phase.busy : Phase ρ → Bool
  | .restoring | .rollingBack | .seeding | .backingUp _ | .marking _ | .writing _ => true
  | _ => false

/-- A phase that writes is busy. -/
theorem Phase.busy_of_writes {ph : Phase ρ} {x : FileName × ρ}
    (h : ph.writes default_ pending v = some x) : ph.busy = true := by
  cases ph with
  | restoring | rollingBack | seeding | backingUp | marking | writing => rfl
  | _ => cases h

namespace Machine

variable {m o : Machine ρ}

/-! ### The invariant -/

/-- The temporary file of an `atomic_write`, as far as it is. -/
def TempOk (d : Disk FileName ρ) (w : Writing ρ) : Prop :=
  match w.stage with
  | .opened => ∃ b, d.Holds w.name b false
  | .written => d.Holds w.name w.content false
  | .synced => d.Holds w.name w.content true
  | .replaced => True

/-- The `atomic_write` that is under way is that of the phase. -/
structure Calling (default_ pending : ρ) (m : Machine ρ) (w : Writing ρ) : Prop where
  busy : m.phase.busy = true
  temp : TempOk m.disk w
  writes : w.stage ≠ .replaced → m.phase.writes default_ pending m.disk.now = some (w.name, w.content)
  guard : w.stage ≠ .replaced → ∀ r, m.phase = .backingUp r → (m.disk.now .marker).isSome →
    m.disk.now .rating = m.disk.now .backup

/-- What every step keeps.  Whatever version a power failure brings back, the rating that it puts
in force is the one in force now or the one before; and only the last apply can be taken back,
for there is one version when its node is started. -/
structure Inv (default_ pending : ρ) (m : Machine ρ) : Prop where
  sound : m.disk.Sound
  files : ∀ v, m.disk.May v → Files default_ m.offered v
  near : ∀ v, m.disk.May v → inForce default_ v = m.effective default_ ∨ inForce default_ v = m.previous
  seeded : m.disk.now .marker = none → m.disk.now .rating = none →
    m.reached = .down ∨ m.reached = .seeding
  half : Halfway default_ m.offered m.disk.now m.reached
  settled : ∀ r, m.phase = .starting (some r) ∨ m.phase = .committing (some r) →
    ∀ v, m.disk.May v → inForce default_ v = m.effective default_
  calling : ∀ w, m.call = some w → m.Calling default_ pending w

/-- The invariant holds at first. -/
theorem Installed.inv (h : Installed default_ m) : m.Inv default_ pending where
  sound := h.sound
  files v hv := by
    obtain rfl := h.one v hv
    refine ⟨fun hm => ?_, fun n hn r hr => ?_⟩
    · rw [h.marker] at hm
      cases hm
    · cases n with
      | rating => exact List.mem_cons_of_mem _ (by rw [h.offered, hr]; exact List.mem_singleton_self r)
      | backup =>
        rw [h.backup] at hr
        cases hr
      | marker => exact absurd rfl hn
  near v hv := .inl (by rw [h.one v hv]; rfl)
  seeded _ _ := by
    left
    rw [reached, h.call]
    exact h.phase
  half := by
    rw [reached, h.call]
    show Halfway default_ m.offered m.disk.now m.phase
    rw [h.phase]
    trivial
  settled r hr := by
    rw [h.phase] at hr
    rcases hr with hr | hr
    · cases hr
    · cases hr
  calling w hw := by
    rw [h.call] at hw
    cases hw

/-- Outside the writing phases nothing is under way. -/
theorem Inv.call_none (h : m.Inv default_ pending) (hb : m.phase.busy = false) : m.call = none := by
  cases hc : m.call with
  | none => rfl
  | some w => exact absurd (h.calling w hc).busy (by rw [hb]; exact Bool.false_ne_true)

/-- Between the writes the phase is the one that was reached. -/
theorem reached_of_none (h : m.call = none) : m.reached = m.phase := by rw [reached, h]

/-- A write that has not replaced its file has reached nothing. -/
theorem reached_of_ne {w : Writing ρ} (h : m.call = some w) (hw : w.stage ≠ .replaced) :
    m.reached = m.phase := by
  rw [reached, h]
  exact if_neg hw

/-- One that has counts as done. -/
theorem reached_of_replaced {w : Writing ρ} (h : m.call = some w) (hw : w.stage = .replaced) :
    m.reached = m.phase.wrote := by
  rw [reached, h]
  exact if_pos hw

/-- A step that reads the same files, of which no more versions may come back. -/
theorem Inv.unseen (h : m.Inv default_ pending) (sound : o.disk.Sound)
    (now : o.disk.now = m.disk.now) (may : ∀ v, o.disk.May v → m.disk.May v)
    (prev : o.previous = m.previous) (grow : ∀ r ∈ m.offered, r ∈ o.offered)
    (half : Halfway default_ o.offered m.disk.now o.reached)
    (seeded : m.disk.now .marker = none → m.disk.now .rating = none →
      o.reached = .down ∨ o.reached = .seeding)
    (settled : ∀ r, o.phase = .starting (some r) ∨ o.phase = .committing (some r) →
      ∀ v, o.disk.May v → inForce default_ v = m.effective default_)
    (calling : ∀ w, o.call = some w → o.Calling default_ pending w) :
    o.Inv default_ pending ∧ o.effective default_ = m.effective default_ := by
  have eff : o.effective default_ = m.effective default_ := congrArg (inForce default_) now
  refine ⟨⟨sound, fun v hv => (h.files v (may v hv)).mono grow, fun v hv => ?_, ?_, ?_, ?_, calling⟩, eff⟩
  · rw [eff, prev]
    exact h.near v (may v hv)
  · rw [now]
    exact seeded
  · rw [now]
    exact half
  · rw [eff]
    exact settled

/-- Going on to another phase. -/
theorem Inv.goto (h : m.Inv default_ pending) (disk : o.disk = m.disk) (prev : o.previous = m.previous)
    (offered : o.offered = m.offered) (call : o.call = none)
    (half : Halfway default_ m.offered m.disk.now o.phase)
    (seeded : m.disk.now .marker = none → m.disk.now .rating = none →
      o.phase = .down ∨ o.phase = .seeding)
    (settled : ∀ r, o.phase = .starting (some r) ∨ o.phase = .committing (some r) →
      ∀ v, m.disk.May v → inForce default_ v = m.effective default_) :
    o.Inv default_ pending ∧ o.effective default_ = m.effective default_ := by
  refine h.unseen (disk ▸ h.sound) (by rw [disk]) (fun v hv => disk ▸ hv) prev
    (fun r hr => offered ▸ hr) ?_ ?_ ?_ fun w hw => ?_
  · rw [offered, reached_of_none call]
    exact half
  · rw [reached_of_none call]
    exact seeded
  · rw [disk]
    exact settled
  · rw [call] at hw
    cases hw

/-- A rating exists without the marker, once the helper has come up. -/
theorem Inv.rating_ne_none (h : m.Inv default_ pending) (hb : m.phase.busy = false)
    (hd : m.phase ≠ .down) (hm : m.disk.now .marker = none) : m.disk.now .rating ≠ none := by
  intro hr
  have hs := h.seeded hm hr
  rw [reached_of_none (h.call_none hb)] at hs
  rcases hs with hs | hs
  · exact hd hs
  · rw [hs] at hb
    cases hb

/-- What a step does to the rating in force: an apply that commits puts its own in force, a power
failure at most brings back the one before the last apply, and every other step leaves it. -/
def Kept (default_ : ρ) (m : Machine ρ) (a : SystemCall ρ) (o : Machine ρ) : Prop :=
  (∃ r, a = .unlink ∧ m.phase = .committing (some r) ∧ o.effective default_ = r ∧
    o.previous = m.effective default_) ∨
  (o.previous = m.previous ∧ (o.effective default_ = m.effective default_ ∨
    (∃ k lost, a = .power k lost) ∧ o.effective default_ = m.previous))

/-- A call that leaves the rating in force keeps it. -/
theorem Kept.same {a : SystemCall ρ} (prev : o.previous = m.previous)
    (h : o.effective default_ = m.effective default_) : Kept default_ m a o := .inr ⟨prev, .inl h⟩

/-! ### The steps of an `atomic_write` -/

/-- A call is made of a write that is at its stage. -/
theorem proceed_eq_some {stage : WriteStage} {f : Writing ρ → Machine ρ}
    (h : m.proceed stage f = some o) : ∃ w, m.call = some w ∧ w.stage = stage ∧ o = f w := by
  unfold proceed at h
  cases hc : m.call with
  | none => simp [hc] at h
  | some w =>
    rw [hc] at h
    simp only [Option.ite_none_right_eq_some, Option.some.injEq] at h
    exact ⟨w, rfl, h.1, h.2.symm⟩

/-- A busy phase does not wait for the node. -/
theorem not_waits {ph : Phase ρ} (hb : ph.busy = true) (r : ρ) :
    ¬(ph = .starting (some r) ∨ ph = .committing (some r)) := by
  rintro (rfl | rfl)
  · cases hb
  · cases hb

/-- The temporary file is written or synced. -/
theorem Inv.temp (h : m.Inv default_ pending) {w : Writing ρ} (hc : m.call = some w)
    (hw : w.stage ≠ .replaced) (stage : WriteStage) (hst : stage ≠ .replaced)
    (phase : o.phase = m.phase) (prev : o.previous = m.previous) (offered : o.offered = m.offered)
    (call : o.call = some { w with stage := stage }) (sound : o.disk.Sound)
    (same : Disk.Same m.disk o.disk) (temp : TempOk o.disk { w with stage := stage }) :
    o.Inv default_ pending ∧ o.effective default_ = m.effective default_ := by
  have old := h.calling w hc
  have at_ : o.reached = m.reached := by
    rw [reached_of_ne hc hw, reached_of_ne call hst, phase]
  refine h.unseen sound same.now (fun v => (same.may v).1) prev (fun r hr => offered ▸ hr) ?_ ?_
    (fun r hr => ?_) fun w' hw' => ?_
  · rw [at_, offered]
    exact h.half
  · rw [at_]
    exact h.seeded
  · rw [phase] at hr
    exact absurd hr (not_waits old.busy r)
  · obtain rfl := Option.some.inj (call.symm.trans hw')
    refine ⟨by rw [phase]; exact old.busy, temp, fun _ => ?_, fun _ => ?_⟩
    · rw [phase, same.now]
      exact old.writes hw
    · rw [phase, same.now]
      exact old.guard hw

/-- The beginning of a write keeps the invariant. -/
theorem Inv.begin (h : m.Inv default_ pending) (g : m.Guarded .begin)
    (hs : m.step default_ pending empty .begin = some o) :
    o.Inv default_ pending ∧ Kept default_ m .begin o := by
  simp only [step, Option.ite_none_left_eq_some] at hs
  obtain ⟨hc, hs⟩ := hs
  have hc : m.call = none := by simpa using hc
  cases hw : m.phase.writes default_ pending m.disk.now with
  | some x =>
    obtain ⟨n, b⟩ := x
    rw [hw] at hs
    obtain rfl := Option.some.inj hs
    have same : Disk.Same m.disk (m.disk.create n empty) := h.sound.same_create
    have busy := Phase.busy_of_writes hw
    have opened : WriteStage.opened ≠ .replaced := fun e => by cases e
    obtain ⟨inv, eff⟩ := h.unseen (o := { m with call := some ⟨n, b, .opened⟩, disk := m.disk.create n empty })
      h.sound.create same.now (fun v => (same.may v).1) rfl (fun _ hr => hr)
      (by rw [reached_of_ne rfl opened, ← reached_of_none hc]; exact h.half)
      (by rw [reached_of_ne rfl opened, ← reached_of_none hc]; exact h.seeded)
      (fun r hr => absurd hr (not_waits busy r)) fun w hw' => by
        obtain rfl := Option.some.inj hw'
        refine ⟨busy, ⟨empty, Disk.holds_create⟩, fun _ => ?_, fun _ r hr hm => ?_⟩
        · rw [same.now]
          exact hw
        · rw [same.now] at hm ⊢
          exact g r hr hm
    exact ⟨inv, .same rfl eff⟩
  | none =>
    rw [hw] at hs
    simp only [Option.ite_none_right_eq_some] at hs
    obtain ⟨hseed, hs⟩ := hs
    obtain rfl := Option.some.inj hs
    have hph : m.phase = .seeding := by
      revert hseed
      cases m.phase <;> simp
    have hr : m.disk.now .rating ≠ none := fun hr => by simp [Phase.writes, hph, hr] at hw
    obtain ⟨inv, eff⟩ := h.goto (o := { m with phase := .idle }) rfl rfl rfl hc trivial
      (fun _ hn => absurd hn hr) fun r hr => by rcases hr with hr | hr <;> cases hr
    exact ⟨inv, .same rfl eff⟩

/-- The replacement of the file keeps it. -/
theorem Inv.replace (h : m.Inv default_ pending)
    (hs : m.step default_ pending empty .replace = some o) :
    o.Inv default_ pending ∧ Kept default_ m .replace o := by
  obtain ⟨w, hc, hst, rfl⟩ := proceed_eq_some hs
  have ne : w.stage ≠ .replaced := by rw [hst]; decide
  have old := h.calling w hc
  have temp : m.disk.Holds w.name w.content true := by
    have := old.temp
    rwa [TempOk, hst] at this
  have half := h.half
  rw [reached_of_ne hc ne] at half
  obtain ⟨files, eff, half', rating⟩ :=
    harmless (old.writes ne) (h.files _ .now) half (old.guard ne)
  have now := Disk.now_replace temp
  have may := Disk.may_replace temp
  have eff' : inForce default_ (m.disk.replace w.name).now = m.effective default_ := by rw [now]; exact eff
  refine ⟨⟨h.sound.replace temp, fun v hv => ?_, fun v hv => ?_, fun hm hr => ?_, ?_, fun r hr => ?_,
    fun w' hw' => ?_⟩, .same rfl eff'⟩
  · rcases (may v).1 hv with hv | rfl
    · exact h.files v hv
    · exact files
  · show inForce default_ v = inForce default_ (m.disk.replace w.name).now ∨ inForce default_ v = m.previous
    rw [eff']
    rcases (may v).1 hv with hv | rfl
    · exact h.near v hv
    · exact .inl eff
  · have hm : (m.disk.replace w.name).now .marker = none := hm
    have hr : (m.disk.replace w.name).now .rating = none := hr
    rw [now] at hm hr
    exact absurd hr (rating hm)
  · rw [reached_of_replaced rfl rfl]
    show Halfway default_ m.offered (m.disk.replace w.name).now m.phase.wrote
    rw [now]
    exact half'
  · exact absurd hr (not_waits old.busy r)
  · obtain rfl := Option.some.inj hw'
    exact ⟨old.busy, trivial, fun hne => absurd rfl hne, fun hne => absurd rfl hne⟩

/-- Bringing the directory to the disk keeps it. -/
theorem Inv.syncDir (h : m.Inv default_ pending)
    (hs : m.step default_ pending empty .syncDir = some o) :
    o.Inv default_ pending ∧ Kept default_ m .syncDir o := by
  obtain ⟨w, hc, hst, rfl⟩ := proceed_eq_some hs
  have one : ∀ v, m.disk.syncDir.May v → v = m.disk.now := fun v => (Disk.may_syncDir v).1
  have at_ : m.reached = m.phase.wrote := reached_of_replaced hc hst
  obtain ⟨inv, eff⟩ := h.unseen
    (o := { m with disk := m.disk.syncDir, call := none, phase := m.phase.wrote })
    h.sound.syncDir rfl (fun v hv => by rw [one v hv]; exact .now) rfl (fun _ hr => hr)
    (by rw [reached_of_none rfl]; exact at_ ▸ h.half)
    (by rw [reached_of_none rfl]; exact at_ ▸ h.seeded)
    (fun _ _ v hv => by rw [one v hv]; rfl) fun w hw => (by cases hw)
  exact ⟨inv, .same rfl eff⟩

/-! ### The other steps -/

/-- The marker is removed. -/
theorem Inv.unlinked (h : m.Inv default_ pending) (disk : o.disk = m.disk.unlink .marker)
    (call : o.call = none) (offered : o.offered = m.offered)
    (near : ∀ v, m.disk.May v →
      inForce default_ v = o.effective default_ ∨ inForce default_ v = o.previous)
    (phase : o.phase = .seeding ∨ o.phase = .idle ∧ m.disk.now .rating ≠ none) :
    o.Inv default_ pending := by
  have now : o.disk.now = Function.update m.disk.now .marker none := by rw [disk, Disk.now_unlink]
  have may : ∀ v, o.disk.May v → m.disk.May v ∨ v = o.disk.now := by
    intro v hv
    rw [disk] at hv
    rw [now]
    exact (Disk.may_unlink v).1 hv
  have at_ := reached_of_none call
  refine ⟨disk ▸ h.sound.unlink, fun v hv => ?_, fun v hv => ?_, fun _ hr => ?_, ?_, fun r hr => ?_,
    fun w hw => ?_⟩
  · rw [offered]
    rcases may v hv with hv | rfl
    · exact h.files v hv
    · rw [now]
      refine ⟨fun hm => (by cases hm), fun n hn r hr => ?_⟩
      rw [Function.update_of_ne hn] at hr
      exact (h.files _ .now).whole n hn r hr
  · rcases may v hv with hv | rfl
    · exact near v hv
    · exact .inl rfl
  · rw [now] at hr
    rcases phase with hp | ⟨-, hne⟩
    · exact .inr (at_.trans hp)
    · exact absurd hr hne
  · rw [at_, now]
    rcases phase with hp | ⟨hp, -⟩
    · rw [hp]
      rfl
    · rw [hp]
      trivial
  · rcases phase with hp | ⟨hp, -⟩
    · rw [hp] at hr
      rcases hr with hr | hr <;> cases hr
    · rw [hp] at hr
      rcases hr with hr | hr <;> cases hr
  · rw [call] at hw
    cases hw

/-- Removing the marker of a rating that is backed up, or no marker, changes nothing in force. -/
theorem inForce_unlink (h : (v .marker).isSome → v .rating = v .backup) :
    inForce default_ (Function.update v .marker none) = inForce default_ v := by
  rw [inForce_unmarked (v := Function.update v .marker none) rfl]
  show (v .rating).getD default_ = _
  cases hm : (v .marker).isSome with
  | true => rw [inForce_marked hm, h hm]
  | false => rw [inForce_unmarked (by simpa using hm)]

/-- The removal of the marker keeps it. -/
theorem Inv.unlink (h : m.Inv default_ pending) (g : m.Guarded .unlink)
    (hs : m.step default_ pending empty .unlink = some o) :
    o.Inv default_ pending ∧ Kept default_ m .unlink o := by
  -- The marker goes while the rating is what the backup is.
  have plain : ∀ {ph : Phase ρ}, m.phase.busy = false →
      ((m.disk.now .marker).isSome → m.disk.now .rating = m.disk.now .backup) →
      (ph = .seeding ∨ ph = .idle ∧ m.disk.now .rating ≠ none) →
      o = { m with disk := m.disk.unlink .marker, phase := ph } →
      o.Inv default_ pending ∧ Kept default_ m .unlink o := by
    intro ph hb hrb hph e
    subst e
    have eff : inForce default_ (m.disk.unlink .marker).now = m.effective default_ := by
      rw [Disk.now_unlink]
      exact inForce_unlink hrb
    refine ⟨h.unlinked rfl (h.call_none hb) rfl (fun v hv => ?_) hph, .same rfl eff⟩
    show inForce default_ v = inForce default_ (m.disk.unlink .marker).now ∨ inForce default_ v = m.previous
    rw [eff]
    exact h.near v hv
  have backed : (m.disk.now .marker).isSome → m.disk.now .rating = m.disk.now .backup →
      m.disk.now .rating ≠ none := by
    intro hm hr
    rw [hr]
    exact Option.isSome_iff_ne_none.1 ((h.files _ .now).backup hm)
  have half := h.half
  cases hph : m.phase with
  | clearing =>
    rw [reached_of_none (h.call_none (by rw [hph]; rfl)), hph] at half
    simp only [Machine.step, hph, Option.some.injEq] at hs
    exact plain (by rw [hph]; rfl) (fun _ => half.2) (.inl rfl) hs.symm
  | rolledBack =>
    rw [reached_of_none (h.call_none (by rw [hph]; rfl)), hph] at half
    simp only [Machine.step, hph, Option.some.injEq] at hs
    exact plain (by rw [hph]; rfl) (fun _ => half.2) (.inr ⟨rfl, backed half.1 half.2⟩) hs.symm
  | committing r =>
    have hb : m.phase.busy = false := by rw [hph]; rfl
    rw [reached_of_none (h.call_none hb), hph] at half
    cases r with
    | none =>
      simp only [Machine.step, hph, Option.some.injEq] at hs
      refine plain hb (g hph) (.inr ⟨rfl, ?_⟩) hs.symm
      cases hm : (m.disk.now .marker).isSome with
      | true => exact backed hm (g hph hm)
      | false => exact h.rating_ne_none hb (by rw [hph]; exact fun e => by cases e) (by simpa using hm)
    | some r =>
      simp only [Machine.step, hph, Option.some.injEq] at hs
      subst hs
      have eff : inForce default_ (m.disk.unlink .marker).now = r := by
        rw [Disk.now_unlink, inForce_unmarked (v := Function.update m.disk.now .marker none) rfl]
        show (m.disk.now .rating).getD default_ = r
        rw [half.2]
        rfl
      refine ⟨h.unlinked rfl (h.call_none hb) rfl (fun v hv => .inr (h.settled r (.inr hph) v hv))
        (.inr ⟨rfl, by rw [half.2]; exact fun e => by cases e⟩), .inl ⟨r, rfl, hph, eff, rfl⟩⟩
  | _ => simp only [Machine.step, hph, reduceCtorEq] at hs

/-- A power failure keeps it. -/
theorem Inv.power (h : m.Inv default_ pending) {k : ℕ} {lost : ℕ → ρ}
    (hs : m.step default_ pending empty (.power k lost) = some o) :
    o.Inv default_ pending ∧ Kept default_ m (.power k lost) o := by
  obtain ⟨D, hD, rfl⟩ := Option.map_eq_some_iff.1 hs
  have hD : D ∈ m.disk.versions := List.mem_of_getElem? hD
  obtain ⟨was, one⟩ := h.sound.may_power hD lost
  refine ⟨⟨h.sound.power hD lost, fun v hv => ?_, fun v hv => ?_, fun _ _ => .inl rfl, trivial,
    fun r hr => ?_, fun w hw => ?_⟩, .inr ⟨rfl, ?_⟩⟩
  · rw [(one v).1 hv]
    exact h.files _ was
  · exact .inl (congrArg (inForce default_) ((one v).1 hv))
  · rcases hr with hr | hr <;> cases hr
  · cases hw
  · rcases h.near _ was with e | e
    · exact .inl e
    · exact .inr ⟨⟨k, lost, rfl⟩, e⟩

/-- A phase that is reached on the way up is a phase of the way up. -/
theorem Phase.up_of_wrote {ph : Phase ρ} (h : ph.wrote = .down ∨ ph.wrote = .seeding) :
    ph = .down ∨ ph = .seeding := by
  cases ph with
  | down | seeding => simp
  | _ => rcases h with h | h <;> cases h

/-- Only a machine that is down or is seeded has reached no more than that. -/
theorem Phase.up_of_reached (h : m.reached = .down ∨ m.reached = .seeding) :
    m.phase = .down ∨ m.phase = .seeding := by
  cases hc : m.call with
  | none => rwa [reached_of_none hc] at h
  | some w =>
    by_cases hw : w.stage = .replaced
    · rw [reached_of_replaced hc hw] at h
      exact up_of_wrote h
    · rwa [reached_of_ne hc hw] at h

/-- An error keeps the invariant. -/
theorem Inv.raise (h : m.Inv default_ pending) :
    let o : Machine ρ := { m with call := none, phase := m.phase.raised }
    o.Inv default_ pending ∧ o.effective default_ = m.effective default_ := by
  refine h.goto rfl rfl rfl rfl ?_ (fun hm hr => ?_) fun r hr => h.settled r ?_
  · cases hb : m.phase.busy with
    | true =>
      have hi : m.phase.raised = .idle ∨ m.phase.raised = .down := by
        cases hph : m.phase with
        | restoring | seeding | backingUp | marking | writing | rollingBack => simp [Phase.raised]
        | _ =>
          rw [hph] at hb
          cases hb
      rcases hi with hi | hi
      · rw [hi]
        trivial
      · rw [hi]
        trivial
    | false =>
      have half := h.half
      rw [reached_of_none (h.call_none hb)] at half
      cases hph : m.phase with
      | starting r =>
        rw [hph] at half
        exact half
      | restarting =>
        rw [hph] at half
        exact half
      | restoring | seeding | backingUp | marking | writing | rollingBack =>
        rw [hph] at hb
        cases hb
      | _ => trivial
  · left
    rcases Phase.up_of_reached (h.seeded hm hr) with hp | hp
    · exact congrArg Phase.raised hp
    · exact congrArg Phase.raised hp
  · cases hph : m.phase with
    | starting x =>
      rw [hph] at hr
      exact hr
    | _ => rw [hph] at hr; rcases hr with hr | hr <;> cases hr

/-- A start keeps it. -/
theorem Inv.boot (h : m.Inv default_ pending) (hs : m.step default_ pending empty .boot = some o) :
    o.Inv default_ pending ∧ Kept default_ m .boot o := by
  simp only [Machine.step, Option.ite_none_right_eq_some] at hs
  obtain ⟨hdown, hs⟩ := hs
  obtain rfl := Option.some.inj hs
  have hph : m.phase = .down := by
    revert hdown
    cases m.phase <;> simp
  have hc : m.call = none := h.call_none (by rw [hph]; rfl)
  cases hm : (m.disk.now .marker).isSome with
  | true =>
    obtain ⟨inv, eff⟩ := h.goto (o := { m with phase := .restoring }) rfl rfl rfl hc hm
      (fun hn => by rw [hn] at hm; cases hm) fun r hr => by rcases hr with hr | hr <;> cases hr
    exact ⟨inv, .same rfl eff⟩
  | false =>
    obtain ⟨inv, eff⟩ := h.goto (o := { m with phase := .seeding }) rfl rfl rfl hc
      (show m.disk.now .marker = none by simpa using hm) (fun _ _ => .inr rfl)
      fun r hr => by rcases hr with hr | hr <;> cases hr
    exact ⟨inv, .same rfl eff⟩

/-- A request keeps it. -/
theorem Inv.request (h : m.Inv default_ pending) {r : Option ρ}
    (hs : m.step default_ pending empty (.request r) = some o) :
    o.Inv default_ pending ∧ Kept default_ m (.request r) o := by
  simp only [Machine.step, Option.ite_none_right_eq_some] at hs
  obtain ⟨hidle, hs⟩ := hs
  obtain rfl := Option.some.inj hs
  have hph : m.phase = .idle := by
    revert hidle
    cases m.phase <;> simp
  have hb : m.phase.busy = false := by rw [hph]; rfl
  have hc := h.call_none hb
  have rating := h.rating_ne_none hb (by rw [hph]; exact fun e => by cases e)
  cases r with
  | some r =>
    have at_ : Machine.reached { m with phase := .backingUp r, offered := r :: m.offered } = .backingUp r :=
      reached_of_none hc
    obtain ⟨inv, eff⟩ := h.unseen (o := { m with phase := .backingUp r, offered := r :: m.offered })
      h.sound rfl (fun _ hv => hv) rfl (fun _ hx => List.mem_cons_of_mem _ hx)
      (by rw [at_]; exact List.mem_cons_self)
      (fun hm hr => absurd hr (rating hm)) (fun x hx => by rcases hx with hx | hx <;> cases hx)
      fun w hw => by rw [hc] at hw; cases hw
    exact ⟨inv, .same rfl eff⟩
  | none =>
    obtain ⟨inv, eff⟩ := h.goto (o := { m with phase := .starting none }) rfl rfl rfl hc trivial
      (fun hm hr => absurd hr (rating hm)) fun x hx => by rcases hx with hx | hx <;> cases hx
    exact ⟨inv, .same rfl eff⟩

/-- The end of the wait for the node keeps it. -/
theorem Inv.node (h : m.Inv default_ pending) {ready : Bool}
    (hs : m.step default_ pending empty (.node ready) = some o) :
    o.Inv default_ pending ∧ Kept default_ m (.node ready) o := by
  -- The phases of the node write nothing, so the helper has a rating.
  have on : ∀ ph : Phase ρ, m.phase.busy = false → m.phase ≠ .down →
      Halfway default_ m.offered m.disk.now ph →
      (∀ r, ph = .starting (some r) ∨ ph = .committing (some r) → m.phase = .starting (some r)) →
      o = { m with phase := ph } → o.Inv default_ pending ∧ Kept default_ m (.node ready) o := by
    intro ph hb hd half settled e
    subst e
    obtain ⟨inv, eff⟩ := h.goto (o := { m with phase := ph }) rfl rfl rfl (h.call_none hb) half
      (fun hm hr => absurd hr (h.rating_ne_none hb hd hm)) fun r hr => h.settled r (.inl (settled r hr))
    exact ⟨inv, .same rfl eff⟩
  have half := h.half
  cases hph : m.phase with
  | starting r =>
    have hb : m.phase.busy = false := by rw [hph]; rfl
    have hd : m.phase ≠ .down := by rw [hph]; exact fun e => by cases e
    rw [reached_of_none (h.call_none hb), hph] at half
    simp only [Machine.step, hph, Option.some.injEq] at hs
    cases ready with
    | true =>
      refine on (.committing r) hb hd ?_ (fun x hx => ?_) hs.symm
      · cases r with
        | none => trivial
        | some r => exact half
      · rcases hx with hx | hx
        · cases hx
        · cases hx
          exact hph
    | false =>
      cases hm : (m.disk.now .marker).isSome with
      | true =>
        refine on .rollingBack hb hd hm (fun x hx => by rcases hx with hx | hx <;> cases hx) ?_
        rw [← hs, hm]
        rfl
      | false =>
        refine on .idle hb hd trivial (fun x hx => by rcases hx with hx | hx <;> cases hx) ?_
        rw [← hs, hm]
        rfl
  | restarting =>
    have hb : m.phase.busy = false := by rw [hph]; rfl
    have hd : m.phase ≠ .down := by rw [hph]; exact fun e => by cases e
    rw [reached_of_none (h.call_none hb), hph] at half
    simp only [Machine.step, hph, Option.some.injEq] at hs
    cases ready with
    | true => exact on .rolledBack hb hd half (fun x hx => by rcases hx with hx | hx <;> cases hx) hs.symm
    | false => exact on .idle hb hd trivial (fun x hx => by rcases hx with hx | hx <;> cases hx) hs.symm
  | idle =>
    simp only [Machine.step, hph, Option.some.injEq] at hs
    cases ready with
    | true =>
      obtain rfl : m = o := hs
      exact ⟨h, .same rfl rfl⟩
    | false =>
      have hs : { m with phase := .down } = o := hs
      subst hs
      obtain ⟨inv, eff⟩ := h.goto (o := { m with phase := .down }) rfl rfl rfl
        (h.call_none (by rw [hph]; rfl)) trivial (fun _ _ => .inl rfl)
        fun x hx => by rcases hx with hx | hx <;> cases hx
      exact ⟨inv, .same rfl eff⟩
  | _ => simp only [Machine.step, hph, reduceCtorEq] at hs

/-- **One guarded step keeps the invariant**, and the rating in force as it should. -/
theorem Inv.step (h : m.Inv default_ pending) {a : SystemCall ρ} (g : m.Guarded a)
    (hs : m.step default_ pending empty a = some o) :
    o.Inv default_ pending ∧ Kept default_ m a o := by
  cases a with
  | boot => exact h.boot hs
  | request r => exact h.request hs
  | node ready => exact h.node hs
  | begin => exact h.begin g hs
  | write part =>
    obtain ⟨⟨n, b, st⟩, hc, rfl, rfl⟩ := proceed_eq_some hs
    obtain ⟨c, hold⟩ : ∃ c, m.disk.Holds n c false := (h.calling _ hc).temp
    obtain ⟨inv, eff⟩ := h.temp (o := { m with disk := m.disk.write n part }) hc (fun e => by cases e)
      .opened (fun e => by cases e) rfl rfl rfl hc h.sound.write h.sound.same_write
      ⟨part, hold.write⟩
    exact ⟨inv, .same rfl eff⟩
  | flush =>
    obtain ⟨⟨n, b, st⟩, hc, rfl, rfl⟩ := proceed_eq_some hs
    obtain ⟨c, hold⟩ : ∃ c, m.disk.Holds n c false := (h.calling _ hc).temp
    obtain ⟨inv, eff⟩ := h.temp
      (o := { m with disk := m.disk.write n b, call := some ⟨n, b, .written⟩ }) hc (fun e => by cases e)
      .written (fun e => by cases e) rfl rfl rfl rfl h.sound.write h.sound.same_write
      hold.write
    exact ⟨inv, .same rfl eff⟩
  | fsync =>
    obtain ⟨⟨n, b, st⟩, hc, rfl, rfl⟩ := proceed_eq_some hs
    have hold : m.disk.Holds n b false := (h.calling _ hc).temp
    obtain ⟨inv, eff⟩ := h.temp
      (o := { m with disk := m.disk.fsync n, call := some ⟨n, b, .synced⟩ }) hc (fun e => by cases e)
      .synced (fun e => by cases e) rfl rfl rfl rfl h.sound.fsync h.sound.same_fsync
      hold.fsync
    exact ⟨inv, .same rfl eff⟩
  | replace => exact h.replace hs
  | syncDir => exact h.syncDir hs
  | unlink => exact h.unlink g hs
  | raise =>
    obtain rfl := Option.some.inj hs
    exact ⟨h.raise.1, .same rfl h.raise.2⟩
  | kill =>
    obtain rfl := Option.some.inj hs
    obtain ⟨inv, eff⟩ := h.goto (o := { m with call := none, phase := .down }) rfl rfl rfl rfl trivial
      (fun _ _ => .inl rfl) fun x hx => by rcases hx with hx | hx <;> cases hx
    exact ⟨inv, .same rfl eff⟩
  | syncOther =>
    obtain rfl := Option.some.inj hs
    obtain ⟨inv, eff⟩ := h.unseen (o := { m with disk := m.disk.syncDir }) h.sound.syncDir rfl
      (fun v hv => by rw [(Disk.may_syncDir v).1 hv]; exact .now) rfl (fun _ hr => hr) h.half h.seeded
      (fun r _ v hv => by rw [(Disk.may_syncDir v).1 hv]; rfl)
      fun w hw => ⟨(h.calling w hw).busy, (h.calling w hw).temp, (h.calling w hw).writes, (h.calling w hw).guard⟩
    exact ⟨inv, .same rfl eff⟩
  | power k lost => exact h.power hs

/-! ### Runs -/

/-- **The invariant holds in every run.** -/
theorem Reach.inv (h : Reach default_ pending empty Guarded m) : m.Inv default_ pending := by
  induction h with
  | installed hi => exact hi.inv
  | step _ ok hs ih => exact (ih.step ok hs).1

/-- No operation is running. -/
def Quiet (m : Machine ρ) : Prop := m.phase = .idle ∨ m.phase = .down

/-- What is promised of the rating file. -/
structure KeepsRating (default_ pending empty : ρ) (m : Machine ρ) : Prop where
  /-- The rating in force changes only as it should. -/
  kept : ∀ a o, m.Guarded a → m.step default_ pending empty a = some o → Kept default_ m a o
  /-- Without the marker the file holds the rating in force, or there is none yet. -/
  file : m.Quiet → m.disk.now .marker = none → m.disk.now .rating = some (m.effective default_) ∨
    m.phase = .down ∧ m.disk.now .rating = none ∧ m.effective default_ = default_
  /-- The file is one whole rating, also after a power failure. -/
  whole : ∀ v r, m.disk.May v → v .rating = some r → r ∈ default_ :: m.offered

/-- **The rating file survives crashes and power failures.**  In every guarded run, wherever the
process or the power ends and whatever system call raises, the file is one whole rating, and the
rating in force is that of the last apply that committed; a power failure takes back the last
apply at most. -/
theorem keepsRating (h : Reach default_ pending empty Guarded m) :
    KeepsRating default_ pending empty m where
  kept a o g hs := (h.inv.step g hs).2
  file hq hm := by
    have eff : m.effective default_ = (m.disk.now .rating).getD default_ := inForce_unmarked hm
    have hb : m.phase.busy = false := by rcases hq with hq | hq <;> rw [hq] <;> rfl
    cases hr : m.disk.now .rating with
    | some r => exact .inl (by rw [eff, hr]; rfl)
    | none =>
      rcases hq with hq | hq
      · exact absurd hr (h.inv.rating_ne_none hb (by rw [hq]; exact fun e => by cases e) hm)
      · exact .inr ⟨hq, rfl, by rw [eff, hr]; rfl⟩
  whole v r hv hr := (h.inv.files v hv).whole .rating (fun e => by cases e) r hr

/-! ### The supervisor of whole-file writes -/

/-- The supervisor that the machine is, if a write is done at once. -/
def toSupervisor (default_ : ρ) (m : Machine ρ) : Supervisor ρ where
  phase := m.reached
  rating := m.disk.now .rating
  backup := m.disk.now .backup
  marker := (m.disk.now .marker).isSome
  committed := m.effective default_
  offered := m.offered

/-- The power does not fail, and what raises is an `atomic_write` whose file is not yet in place. -/
def Plain (m : Machine ρ) : SystemCall ρ → Prop
  | .power .. => False
  | .raise => ∃ w, m.call = some w ∧ w.stage ≠ .replaced
  | _ => True

/-- Where the disk shows the same and the same was reached, the supervisor is the same. -/
theorem toSupervisor_same (now : o.disk.now = m.disk.now) (at_ : o.reached = m.reached)
    (offered : o.offered = m.offered) : o.toSupervisor default_ = m.toSupervisor default_ := by
  unfold toSupervisor effective
  rw [now, at_, offered]

/-- The supervisor without its marker. -/
theorem toSupervisor_unlinked {ph : Phase ρ} {prev r : ρ} (hc : m.call = none)
    (eff : effective default_ { m with disk := m.disk.unlink .marker, phase := ph, previous := prev } = r) :
    toSupervisor default_ { m with disk := m.disk.unlink .marker, phase := ph, previous := prev } =
      { phase := ph
        rating := m.disk.now .rating
        backup := m.disk.now .backup
        marker := false
        committed := r
        offered := m.offered } := by
  have at_ : Machine.reached { m with disk := m.disk.unlink .marker, phase := ph, previous := prev } = ph :=
    reached_of_none hc
  unfold toSupervisor
  rw [at_, eff, Disk.now_unlink]
  rfl

/-- The first machine is the first supervisor. -/
theorem Installed.supervisor (h : Installed default_ m) :
    Supervisor.Installed default_ (m.toSupervisor default_) := by
  have at_ : m.reached = .down := by rw [reached_of_none h.call, h.phase]
  have eff : m.effective default_ = (m.disk.now .rating).getD default_ := inForce_unmarked h.marker
  unfold toSupervisor
  rw [at_, eff, h.backup, h.marker, h.offered]
  cases hr : m.disk.now .rating with
  | some r => exact .seeded
  | none => exact .empty

/-- The file of an `atomic_write` is in place. -/
theorem Inv.supervisor_replace (h : m.Inv default_ pending)
    (hs : m.step default_ pending empty .replace = some o) :
    (m.toSupervisor default_).Guarded (.write true) ∧
      (m.toSupervisor default_).step default_ (.write true) = some (o.toSupervisor default_) := by
  have eff : o.effective default_ = m.effective default_ := by
    rcases (h.replace hs).2 with ⟨r, ha, -⟩ | ⟨-, eff | ⟨⟨k, lost, ha⟩, -⟩⟩
    · cases ha
    · exact eff
    · cases ha
  obtain ⟨w, hc, hst, rfl⟩ := proceed_eq_some hs
  have ne : w.stage ≠ .replaced := by rw [hst]; exact fun e => by cases e
  have old := h.calling w hc
  have temp : m.disk.Holds w.name w.content true := by
    have := old.temp
    rwa [TempOk, hst] at this
  have writes := old.writes ne
  have at_ : m.reached = m.phase := reached_of_ne hc ne
  refine ⟨fun r hr _ hm => old.guard ne r (at_ ▸ hr) hm, ?_⟩
  have shown : Machine.toSupervisor default_
      { m with disk := m.disk.replace w.name, call := some { w with stage := .replaced } } =
      { phase := m.phase.wrote
        rating := Function.update m.disk.now w.name (some w.content) .rating
        backup := Function.update m.disk.now w.name (some w.content) .backup
        marker := (Function.update m.disk.now w.name (some w.content) .marker).isSome
        committed := m.effective default_
        offered := m.offered } := by
    rw [← Disk.now_replace temp, ← eff]
    rfl
  rw [shown]
  obtain ⟨n, b, st⟩ := w
  cases hph : m.phase with
  | restoring | rollingBack =>
    rw [hph] at writes
    obtain ⟨c, hb, e⟩ := Option.map_eq_some_iff.1 writes
    cases e
    simp [Supervisor.step, toSupervisor, at_, hph, Phase.wrote, hb]
  | seeding =>
    rw [hph] at writes
    cases hr : m.disk.now .rating with
    | some r => simp [Phase.writes, hr] at writes
    | none =>
      simp only [Phase.writes, hr, Option.isSome_none, Bool.false_eq_true, if_false, Option.some.injEq,
        Prod.mk.injEq] at writes
      obtain ⟨rfl, rfl⟩ := writes
      simp [Supervisor.step, toSupervisor, at_, hph, Phase.wrote, hr]
  | backingUp r =>
    rw [hph] at writes
    obtain ⟨c, hb, e⟩ := Option.map_eq_some_iff.1 writes
    cases e
    simp [Supervisor.step, toSupervisor, at_, hph, Phase.wrote, hb]
  | marking r =>
    rw [hph] at writes
    cases writes
    simp [Supervisor.step, toSupervisor, at_, hph, Phase.wrote]
  | writing r =>
    rw [hph] at writes
    cases writes
    simp [Supervisor.step, toSupervisor, at_, hph, Phase.wrote]
  | _ =>
    rw [hph] at writes
    cases writes

/-- **A plain guarded step is a guarded step of the supervisor**, or none. -/
theorem Inv.supervisor (h : m.Inv default_ pending) {a : SystemCall ρ} (g : m.Guarded a) (p : m.Plain a)
    (hs : m.step default_ pending empty a = some o) :
    o.toSupervisor default_ = m.toSupervisor default_ ∨ ∃ b, (m.toSupervisor default_).Guarded b ∧
      (m.toSupervisor default_).step default_ b = some (o.toSupervisor default_) := by
  have kept := (h.step g hs).2
  cases a with
  | boot =>
    right
    refine ⟨.boot, trivial, ?_⟩
    simp only [Machine.step, Option.ite_none_right_eq_some] at hs
    obtain ⟨hdown, hs⟩ := hs
    obtain rfl := Option.some.inj hs
    have hph : m.phase = .down := by
      revert hdown
      cases m.phase <;> simp
    have hc : m.call = none := h.call_none (by rw [hph]; rfl)
    simp [Supervisor.step, toSupervisor, reached, hc, hph, effective]
  | request r =>
    right
    refine ⟨.request r, trivial, ?_⟩
    simp only [Machine.step, Option.ite_none_right_eq_some] at hs
    obtain ⟨hidle, hs⟩ := hs
    obtain rfl := Option.some.inj hs
    have hph : m.phase = .idle := by
      revert hidle
      cases m.phase <;> simp
    have hc : m.call = none := h.call_none (by rw [hph]; rfl)
    cases r with
    | some r => simp [Supervisor.step, toSupervisor, reached, hc, hph, effective]
    | none => simp [Supervisor.step, toSupervisor, reached, hc, hph, effective]
  | node ready =>
    right
    refine ⟨.node ready, trivial, ?_⟩
    cases hph : m.phase with
    | starting r =>
      have hc : m.call = none := h.call_none (by rw [hph]; rfl)
      simp only [Machine.step, hph, Option.some.injEq] at hs
      subst hs
      simp [Supervisor.step, toSupervisor, reached, hc, hph, effective]
    | restarting =>
      have hc : m.call = none := h.call_none (by rw [hph]; rfl)
      simp only [Machine.step, hph, Option.some.injEq] at hs
      subst hs
      simp [Supervisor.step, toSupervisor, reached, hc, hph, effective]
    | idle =>
      have hc : m.call = none := h.call_none (by rw [hph]; rfl)
      simp only [Machine.step, hph, Option.some.injEq] at hs
      subst hs
      cases ready with
      | true => simp [Supervisor.step, toSupervisor, reached, hc, hph, effective]
      | false => simp [Supervisor.step, toSupervisor, reached, hc, hph, effective]
    | _ => simp only [Machine.step, hph, reduceCtorEq] at hs
  | begin =>
    simp only [Machine.step, Option.ite_none_left_eq_some] at hs
    obtain ⟨hc, hs⟩ := hs
    have hc : m.call = none := by simpa using hc
    cases hw : m.phase.writes default_ pending m.disk.now with
    | some x =>
      rw [hw] at hs
      obtain rfl := Option.some.inj hs
      refine .inl (toSupervisor_same h.sound.same_create.now ?_ rfl)
      rw [reached_of_none hc]
      exact reached_of_ne rfl fun e => by cases e
    | none =>
      right
      refine ⟨.write true, ?_⟩
      rw [hw] at hs
      simp only [Option.ite_none_right_eq_some] at hs
      obtain ⟨hseed, hs⟩ := hs
      obtain rfl := Option.some.inj hs
      have hph : m.phase = .seeding := by
        revert hseed
        cases m.phase <;> simp
      have at_ : m.reached = .seeding := (reached_of_none hc).trans hph
      have hr : (m.disk.now .rating).isSome := by
        by_contra hn
        simp [Phase.writes, hph, hn] at hw
      refine ⟨fun r he => ?_, ?_⟩
      · cases at_.symm.trans he
      · simp [Supervisor.step, toSupervisor, reached, hc, hph, hr, effective]
  | write part =>
    obtain ⟨w, hc, hst, rfl⟩ := proceed_eq_some hs
    exact .inl (toSupervisor_same h.sound.same_write.now rfl rfl)
  | flush =>
    obtain ⟨w, hc, hst, rfl⟩ := proceed_eq_some hs
    refine .inl (toSupervisor_same h.sound.same_write.now ?_ rfl)
    rw [reached_of_ne hc (by rw [hst]; exact fun e => by cases e)]
    exact reached_of_ne rfl fun e => by cases e
  | fsync =>
    obtain ⟨w, hc, hst, rfl⟩ := proceed_eq_some hs
    refine .inl (toSupervisor_same h.sound.same_fsync.now ?_ rfl)
    rw [reached_of_ne hc (by rw [hst]; exact fun e => by cases e)]
    exact reached_of_ne rfl fun e => by cases e
  | replace => exact .inr ⟨.write true, h.supervisor_replace hs⟩
  | syncDir =>
    obtain ⟨w, hc, hst, rfl⟩ := proceed_eq_some hs
    refine .inl (toSupervisor_same rfl ?_ rfl)
    rw [reached_of_replaced hc hst]
    exact reached_of_none rfl
  | unlink =>
    right
    refine ⟨.unlink, ?_⟩
    cases hph : m.phase with
    | clearing | rolledBack =>
      have hc : m.call = none := h.call_none (by rw [hph]; rfl)
      have at_ := (reached_of_none hc).trans hph
      refine ⟨fun he => (by cases at_.symm.trans he), ?_⟩
      have eff : o.effective default_ = m.effective default_ := by
        rcases kept with ⟨r, -, hr, -⟩ | ⟨-, eff | ⟨⟨k, lost, ha⟩, -⟩⟩
        · cases hph.symm.trans hr
        · exact eff
        · cases ha
      simp only [Machine.step, hph, Option.some.injEq] at hs
      subst hs
      refine Eq.trans ?_ (congrArg some (toSupervisor_unlinked hc eff).symm)
      simp [Supervisor.step, toSupervisor, at_]
    | committing r =>
      have hc : m.call = none := h.call_none (by rw [hph]; rfl)
      have at_ := (reached_of_none hc).trans hph
      refine ⟨fun he hm => g (hph.trans (at_.symm.trans he)) hm, ?_⟩
      have eff : o.effective default_ = r.getD (m.effective default_) := by
        rcases kept with ⟨x, -, hx, eff, -⟩ | ⟨hp, eff⟩
        · cases hph.symm.trans hx
          exact eff
        · cases r with
          | none =>
            rcases eff with eff | ⟨⟨k, lost, ha⟩, -⟩
            · exact eff
            · cases ha
          | some r =>
            simp only [Machine.step, hph, Option.some.injEq] at hs
            subst hs
            have half := h.half
            rw [at_] at half
            show inForce default_ (m.disk.unlink .marker).now = r
            rw [Disk.now_unlink, inForce_unmarked (v := Function.update m.disk.now .marker none) rfl]
            show (m.disk.now .rating).getD default_ = r
            rw [half.2]
            rfl
      cases r with
      | none =>
        simp only [Machine.step, hph, Option.some.injEq] at hs
        subst hs
        refine Eq.trans ?_ (congrArg some (toSupervisor_unlinked hc eff).symm)
        simp [Supervisor.step, toSupervisor, at_]
      | some r =>
        simp only [Machine.step, hph, Option.some.injEq] at hs
        subst hs
        refine Eq.trans ?_ (congrArg some (toSupervisor_unlinked hc eff).symm)
        simp [Supervisor.step, toSupervisor, at_]
    | _ => simp only [Machine.step, hph, reduceCtorEq] at hs
  | raise =>
    right
    obtain rfl := Option.some.inj hs
    obtain ⟨w, hc, hst⟩ := p
    refine ⟨.write false, fun r _ hf => (by cases hf), ?_⟩
    have writes := (h.calling w hc).writes hst
    cases hph : m.phase with
    | seeding =>
      rw [hph] at writes
      have hr : (m.disk.now .rating).isSome = false := by
        by_contra hn
        simp [Phase.writes, hn] at writes
      simp [Supervisor.step, toSupervisor, reached, hc, hst, hph, hr, effective, Phase.raised]
    | restoring | backingUp | marking | writing | rollingBack =>
      simp [Supervisor.step, toSupervisor, reached, hc, hst, hph, effective, Phase.raised]
    | _ =>
      rw [hph] at writes
      cases writes
  | kill =>
    obtain rfl := Option.some.inj hs
    exact .inr ⟨.crash, trivial, rfl⟩
  | syncOther =>
    obtain rfl := Option.some.inj hs
    exact .inl (toSupervisor_same rfl rfl rfl)
  | power k lost => exact p.elim

/-- **The helper is the supervisor of whole-file writes**, where no power fails and nothing raises
once a file is in place. -/
theorem refines (h : Reach default_ pending empty (fun m a => m.Guarded a ∧ m.Plain a) m) :
    Supervisor.Reach default_ Supervisor.Guarded (m.toSupervisor default_) := by
  have both : m.Inv default_ pending ∧
      Supervisor.Reach default_ Supervisor.Guarded (m.toSupervisor default_) := by
    induction h with
    | installed hi => exact ⟨hi.inv, .installed hi.supervisor⟩
    | step _ ok hs ih =>
      refine ⟨(ih.1.step ok.1 hs).1, ?_⟩
      rcases ih.1.supervisor ok.1 ok.2 hs with same | ⟨b, g, hb⟩
      · rw [same]
        exact ih.2
      · exact .step ih.2 g hb
  exact both.2

/-! ### A first start -/

/-- A weaker condition allows more runs. -/
theorem Reach.mono {C C' : Machine ρ → SystemCall ρ → Prop} (hC : ∀ m a, C m a → C' m a)
    (h : Reach default_ pending empty C m) : Reach default_ pending empty C' m := by
  induction h with
  | installed hi => exact .installed hi
  | step _ ok hs ih => exact .step ih (hC _ _ ok) hs

/-- A helper with an empty directory. -/
def blank (default_ empty : ρ) : Machine ρ where
  disk := ⟨fun _ => ⟨empty, true⟩, 0, fun _ => none, []⟩
  previous := default_

/-- An empty disk is as it was installed. -/
theorem installed_blank (default_ empty : ρ) : Installed default_ (blank default_ empty) where
  phase := rfl
  call := rfl
  sound := .of_empty _
  one v hv := by
    obtain ⟨D, hD, rfl⟩ := hv
    rw [List.mem_singleton.1 hD]
    rfl
  marker := rfl
  backup := rfl
  offered := rfl
  previous := rfl

/-- The machine after system calls that pass the check. -/
def after (default_ pending empty : ρ) (chk : Machine ρ → SystemCall ρ → Bool) (m : Machine ρ) :
    List (SystemCall ρ) → Option (Machine ρ)
  | [] => some m
  | a :: l =>
    if chk m a then (m.step default_ pending empty a).bind fun o => after default_ pending empty chk o l
    else none

/-- **System calls that pass the check are a run.** -/
theorem Reach.after {C : Machine ρ → SystemCall ρ → Prop} {chk : Machine ρ → SystemCall ρ → Bool}
    (hC : ∀ m a, chk m a = true → C m a) {l : List (SystemCall ρ)} :
    ∀ {m o : Machine ρ}, Reach default_ pending empty C m →
      m.after default_ pending empty chk l = some o → Reach default_ pending empty C o := by
  induction l with
  | nil =>
    intro m o h ho
    obtain rfl := Option.some.inj ho
    exact h
  | cons a l ih =>
    intro m o h ho
    rw [Machine.after, Option.ite_none_right_eq_some] at ho
    obtain ⟨pass, ho⟩ := ho
    obtain ⟨o', hs, ho⟩ := Option.bind_eq_some_iff.1 ho
    exact ih (.step h (hC m a pass) hs) ho

/-- The marker is not there when an apply begins, and a plain restart removes none. -/
def unmarked (m : Machine String) : SystemCall String → Bool
  | .unlink => !(m.phase matches .committing none)
  | .begin => !(m.phase matches .backingUp _) || (m.disk.now .marker).isNone
  | .raise | .power .. => false
  | _ => true

/-- The check implies both conditions. -/
theorem of_unmarked (m : Machine String) (a : SystemCall String) (h : unmarked m a = true) :
    m.Guarded a ∧ m.Plain a := by
  cases a with
  | unlink =>
    refine ⟨fun hp _ => ?_, trivial⟩
    simp [unmarked, hp] at h
  | begin =>
    refine ⟨fun r hp hm => ?_, trivial⟩
    simp [unmarked, hp] at h
    rw [h] at hm
    cases hm
  | raise | power => cases h
  | _ => exact ⟨trivial, trivial⟩

/-- The calls of an `atomic_write`. -/
def atomicWrite : List (SystemCall String) := [.begin, .write "n", .flush, .fsync, .replace, .syncDir]

/-- A first start writes the default rating; an apply of another one commits. -/
def applied : List (SystemCall String) := .boot :: atomicWrite ++ .request (some "new") ::
  atomicWrite ++ atomicWrite ++ atomicWrite ++ [.node true, .unlink]

/-- The apply is in force. -/
theorem exists_applied : ∃ m : Machine String,
    Reach "default" "pending" "" (fun m a => m.Guarded a ∧ m.Plain a) m ∧
      m.effective "default" = "new" ∧ m.previous = "default" ∧
      ((m.step "default" "pending" "" (.power 1 fun _ => "")).any fun o =>
        o.effective "default" = "default") = true := by
  have run : (((blank "default" "").after "default" "pending" "" unmarked applied).any fun m =>
      m.effective "default" = "new" ∧ m.previous = "default" ∧
        ((m.step "default" "pending" "" (.power 1 fun _ => "")).any fun o =>
          o.effective "default" = "default") = true) = true := by decide +kernel
  obtain ⟨m, hm, h⟩ := (Option.any_eq_true _ _).1 run
  exact ⟨m, Reach.after of_unmarked (.installed (installed_blank _ "")) hm, of_decide_eq_true h⟩

/-- The promises after an apply, and after a power failure that takes it back. -/
theorem keepsRating_applied : ∃ m o : Machine String, m.effective "default" = "new" ∧
    KeepsRating "default" "pending" "" m ∧
    m.step "default" "pending" "" (.power 1 fun _ => "") = some o ∧
    o.effective "default" = "default" ∧ KeepsRating "default" "pending" "" o := by
  obtain ⟨m, h, new, -, failure⟩ := exists_applied
  have guarded : Reach "default" "pending" "" Guarded m := h.mono fun _ _ ok => ok.1
  obtain ⟨o, ho, old⟩ := (Option.any_eq_true _ _).1 failure
  exact ⟨m, o, new, keepsRating guarded, ho, of_decide_eq_true old,
    keepsRating (.step guarded (a := .power 1 fun _ => "") trivial ho)⟩

/-- The supervisor after an apply. -/
theorem refines_applied : ∃ m : Machine String, m.effective "default" = "new" ∧
    Supervisor.Reach "default" Supervisor.Guarded (m.toSupervisor "default") := by
  obtain ⟨m, h, new, -⟩ := exists_applied
  exact ⟨m, new, refines h⟩

end Machine
end NodeHelper
end MorpheusGateway
