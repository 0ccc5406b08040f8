/-
# The node helper's rating file

The helper restarts the node, and applies a new rating by three files: the rating, a
backup of the rating before it, and the marker `applying`.  While the marker exists the
new rating is on trial: the helper's start takes it back, and so does a restart that
fails.

`step` follows `Supervisor.restart` and `lifespan` from file operation to file
operation; a crash may come between any two.  `atomic_write` replaces a whole file or
raises and leaves it as it was.  `committed` is the rating of the apply that was last
ready and had its marker removed.
-/

import Mathlib.Data.List.Basic

namespace MorpheusGateway
namespace NodeHelper

/-- Where the supervisor is: between which file operations, and for which request.  The
request of a plain restart carries no rating. -/
inductive Phase (ρ : Type) : Type where
  -- `lifespan`
  | down
  | restoring
  | clearing
  | seeding
  -- `restart`
  | idle
  | backingUp (rating : ρ)
  | marking (rating : ρ)
  | writing (rating : ρ)
  | starting (rating : Option ρ)
  | committing (rating : Option ρ)
  | rollingBack
  | restarting
  | rolledBack
  deriving DecidableEq

/-- The supervisor: its files, the rating that is committed, and the ratings that were ever
asked for, with the one of the installation. -/
structure Supervisor (ρ : Type) where
  phase : Phase ρ := .down
  rating : Option ρ
  backup : Option ρ := none
  marker : Bool := false
  committed : ρ
  offered : List ρ := []
  deriving DecidableEq

/-- What can happen. -/
inductive Action (ρ : Type) : Type where
  | boot
  | request (rating : Option ρ)
  /-- An `atomic_write` replaces its file, or raises. -/
  | write (ok : Bool)
  /-- The node is started and gets ready, or not. -/
  | node (ready : Bool)
  | unlink
  | crash
  deriving DecidableEq

variable {ρ : Type}

namespace Supervisor

/-- One step; `default_` is the rating of the default policy. -/
def step (default_ : ρ) (o : Supervisor ρ) : Action ρ → Option (Supervisor ρ)
  | .boot =>
    if o.phase matches .down then
      some { o with phase := if o.marker then .restoring else .seeding }
    else none
  | .request r =>
    if o.phase matches .idle then
      some (match r with
        | some r => { o with phase := .backingUp r, offered := r :: o.offered }
        | none => { o with phase := .starting none })
    else none
  | .write ok =>
    match o.phase with
    | .restoring =>
      some (if ok then { o with rating := o.backup, phase := .clearing } else { o with phase := .down })
    | .seeding =>
      some (if o.rating.isSome then { o with phase := .idle }
        else if ok then { o with rating := some default_, phase := .idle }
        else { o with phase := .down })
    | .backingUp r =>
      some (if ok then { o with backup := o.rating, phase := .marking r } else { o with phase := .idle })
    | .marking r =>
      some (if ok then { o with marker := true, phase := .writing r } else { o with phase := .idle })
    | .writing r =>
      some (if ok then { o with rating := some r, phase := .starting (some r) }
        else { o with phase := .idle })
    | .rollingBack =>
      some (if ok then { o with rating := o.backup, phase := .restarting } else { o with phase := .idle })
    | _ => none
  | .node ready =>
    match o.phase with
    | .starting r =>
      some { o with phase :=
        if ready then .committing r else if o.marker then .rollingBack else .idle }
    | .restarting => some { o with phase := if ready then .rolledBack else .idle }
    | .idle => some (if ready then o else { o with phase := .down })
    | _ => none
  | .unlink =>
    match o.phase with
    | .clearing => some { o with marker := false, phase := .seeding }
    | .committing r =>
      some { o with marker := false, committed := r.getD o.committed, phase := .idle }
    | .rolledBack => some { o with marker := false, phase := .idle }
    | _ => none
  | .crash => some { o with phase := .down }

/-- A helper that was never started: there may be no rating file yet. -/
inductive Installed (default_ : ρ) : Supervisor ρ → Prop
  | seeded {r} : Installed default_ { rating := some r, committed := r, offered := [r] }
  | empty : Installed default_ { rating := none, committed := default_ }

/-- The supervisors reached by steps that satisfy `C`. -/
inductive Reach (default_ : ρ) (C : Supervisor ρ → Action ρ → Prop) : Supervisor ρ → Prop
  | installed {o} (h : Installed default_ o) : Reach default_ C o
  | step {o a o'} (reach : Reach default_ C o) (ok : C o a) (step : o.step default_ a = some o') :
      Reach default_ C o'

/-- A run by actions that all satisfy `C`. -/
inductive Runs (default_ : ρ) (C : Supervisor ρ → Action ρ → Prop) :
    Supervisor ρ → List (Action ρ) → Supervisor ρ → Prop
  | nil {o} : Runs default_ C o [] o
  | cons {o a o' as o''} (ok : C o a) (step : o.step default_ a = some o')
      (rest : Runs default_ C o' as o'') : Runs default_ C o (a :: as) o''

/-- No operation is running. -/
def Quiet (o : Supervisor ρ) : Prop := o.phase = .idle ∨ o.phase = .down

/-- **A rating is in force without the marker only when it is committed**, and the file
is always one whole rating.  A helper that has never come up may have no rating file, but
then the default is committed. -/
def AllOrNothing (default_ : ρ) (o : Supervisor ρ) : Prop :=
  (o.Quiet → o.marker = false →
    o.rating = some o.committed ∨ o.phase = .down ∧ o.rating = none ∧ o.committed = default_) ∧
  ∀ r, o.rating = some r → r ∈ default_ :: o.offered

/-- While the marker exists, no plain restart removes it and no apply overwrites the
backup, unless the rating file is what the backup is. -/
def Guarded (o : Supervisor ρ) : Action ρ → Prop
  | .unlink => o.phase = .committing none → o.marker = true → o.rating = o.backup
  | .write ok => ∀ r, o.phase = .backingUp r → ok = true → o.marker = true → o.rating = o.backup
  | _ => True

/-! ### The invariant -/

/-- What holds in the middle of an operation. -/
def Middle (o : Supervisor ρ) : Phase ρ → Prop
  | .restoring | .rollingBack => o.marker = true
  | .clearing | .restarting | .rolledBack => o.marker = true ∧ o.rating = o.backup
  | .seeding => o.marker = false
  | .backingUp r => r ∈ o.offered
  | .marking r => r ∈ o.offered ∧ o.backup = some o.committed
  | .writing r => r ∈ o.offered ∧ o.marker = true
  | .starting (some r) | .committing (some r) => o.marker = true ∧ o.rating = some r
  | .starting none | .committing none | .idle | .down => True

/-- What every step keeps: without the marker the committed rating is in force, with it
the committed rating is in the backup. -/
structure Inv (default_ : ρ) (o : Supervisor ρ) : Prop where
  unmarked : o.marker = false → o.rating = some o.committed ∨
    (o.phase = .down ∨ o.phase = .seeding) ∧ o.rating = none ∧ o.committed = default_
  marked : o.marker = true → o.backup = some o.committed
  middle : o.Middle o.phase
  rating : ∀ r, o.rating = some r → r ∈ default_ :: o.offered
  backup : ∀ r, o.backup = some r → r ∈ default_ :: o.offered

variable {default_ : ρ} {o o' : Supervisor ρ}

/-- The invariant holds at first. -/
theorem Installed.inv (h : Installed default_ o) : o.Inv default_ := by
  cases h with
  | seeded => exact ⟨fun _ => .inl rfl, nofun, trivial, fun r h => by simp_all, nofun⟩
  | empty => exact ⟨fun _ => .inr ⟨.inl rfl, rfl, rfl⟩, nofun, trivial, nofun, nofun⟩

/-- Going on to another phase that asks for nothing more. -/
theorem Inv.goto (h : o.Inv default_) {ph : Phase ρ} (hm : o.Middle ph)
    (hn : o.marker = false → o.rating = none → ph = .down ∨ ph = .seeding) :
    Inv default_ { o with phase := ph } where
  unmarked hf := by
    rcases h.unmarked hf with hr | ⟨-, hr, hc⟩
    · exact .inl hr
    · exact .inr ⟨hn hf hr, hr, hc⟩
  marked := h.marked
  middle := by
    cases ph with
    | starting r => cases r <;> exact hm
    | committing r => cases r <;> exact hm
    | _ => exact hm
  rating := h.rating
  backup := h.backup

/-- Outside the helper's start the rating file exists where there is no marker. -/
theorem Inv.rating_ne_none (h : o.Inv default_) (hd : o.phase ≠ .down) (hs : o.phase ≠ .seeding)
    (hf : o.marker = false) : o.rating ≠ none := by
  rcases h.unmarked hf with hr | ⟨hph, -⟩
  · rw [hr]
    nofun
  · exact absurd hph (not_or.2 ⟨hd, hs⟩)

/-- The rating that a restart would roll back to is the committed one. -/
theorem Inv.rating_eq (h : o.Inv default_) (hd : o.phase ≠ .down) (hs : o.phase ≠ .seeding)
    (hg : o.marker = true → o.rating = o.backup) : o.rating = some o.committed := by
  cases hm : o.marker with
  | true => exact (hg hm).trans (h.marked hm)
  | false =>
    rcases h.unmarked hm with hr | ⟨hph, -⟩
    · exact hr
    · exact absurd hph (not_or.2 ⟨hd, hs⟩)

/-- The file operations. -/
theorem Inv.write (h : o.Inv default_) {ok : Bool} (hg : o.Guarded (.write ok))
    (hs : o.step default_ (.write ok) = some o') : o'.Inv default_ := by
  have hmid := h.middle
  cases hph : o.phase <;> rw [hph] at hmid <;> simp only [step, hph, Option.some.injEq, reduceCtorEq] at hs
  case restoring =>
    subst hs
    cases ok with
    | false => exact h.goto trivial fun _ _ => .inl rfl
    | true =>
      have hm : o.marker = true := hmid
      exact ⟨fun hf => (nomatch hm.symm.trans hf), h.marked, ⟨hm, rfl⟩, h.backup, h.backup⟩
  case seeding =>
    subst hs
    have hf : o.marker = false := hmid
    split_ifs with hr hok
    · exact h.goto trivial fun _ hn => by rw [hn] at hr; exact nomatch hr
    · have hc : o.committed = default_ := by
        rcases h.unmarked hf with h1 | ⟨-, -, hc⟩
        · rw [h1] at hr
          exact absurd rfl hr
        · exact hc
      refine ⟨fun _ => .inl (congrArg some hc.symm), h.marked, trivial, fun r hr' => ?_, h.backup⟩
      obtain rfl := Option.some.inj hr'
      exact .head _
    · exact h.goto trivial fun _ _ => .inl rfl
  case backingUp r =>
    subst hs
    have hne : o.marker = false → o.rating ≠ none :=
      h.rating_ne_none (by rw [hph]; nofun) (by rw [hph]; nofun)
    cases ok with
    | false => exact h.goto trivial fun hf hn => absurd hn (hne hf)
    | true =>
      have hr : o.rating = some o.committed :=
        h.rating_eq (by rw [hph]; nofun) (by rw [hph]; nofun) (hg r hph rfl)
      exact ⟨fun _ => .inl hr, fun _ => hr, ⟨hmid, hr⟩, h.rating, h.rating⟩
  case marking r =>
    subst hs
    have hne : o.marker = false → o.rating ≠ none :=
      h.rating_ne_none (by rw [hph]; nofun) (by rw [hph]; nofun)
    cases ok with
    | false => exact h.goto trivial fun hf hn => absurd hn (hne hf)
    | true => exact ⟨nofun, fun _ => hmid.2, ⟨hmid.1, rfl⟩, h.rating, h.backup⟩
  case writing r =>
    subst hs
    have hm : o.marker = true := hmid.2
    cases ok with
    | false => exact h.goto trivial fun hf => (nomatch hm.symm.trans hf)
    | true =>
      refine ⟨fun hf => (nomatch hm.symm.trans hf), h.marked, ⟨hm, rfl⟩, fun r' hr' => ?_, h.backup⟩
      obtain rfl := Option.some.inj hr'
      exact .tail _ hmid.1
  case rollingBack =>
    subst hs
    have hm : o.marker = true := hmid
    cases ok with
    | false => exact h.goto trivial fun hf => (nomatch hm.symm.trans hf)
    | true => exact ⟨fun hf => (nomatch hm.symm.trans hf), h.marked, ⟨hm, rfl⟩, h.backup, h.backup⟩

/-- The marker is removed where the rating file holds what is committed. -/
theorem Inv.unlink (h : o.Inv default_) (hg : o.Guarded .unlink)
    (hs : o.step default_ .unlink = some o') : o'.Inv default_ := by
  have hmid := h.middle
  cases hph : o.phase <;> rw [hph] at hmid <;> simp only [step, hph, Option.some.injEq, reduceCtorEq] at hs
  case clearing =>
    subst hs
    exact ⟨fun _ => .inl (hmid.2.trans (h.marked hmid.1)), nofun, rfl, h.rating, h.backup⟩
  case committing r =>
    subst hs
    cases r with
    | none =>
      have hr : o.rating = some o.committed :=
        h.rating_eq (by rw [hph]; nofun) (by rw [hph]; nofun) (hg hph)
      exact ⟨fun _ => .inl hr, nofun, trivial, h.rating, h.backup⟩
    | some r => exact ⟨fun _ => .inl hmid.2, nofun, trivial, h.rating, h.backup⟩
  case rolledBack =>
    subst hs
    exact ⟨fun _ => .inl (hmid.2.trans (h.marked hmid.1)), nofun, trivial, h.rating, h.backup⟩

/-- The node is started and gets ready, or not. -/
theorem Inv.node (h : o.Inv default_) {ready : Bool}
    (hs : o.step default_ (.node ready) = some o') : o'.Inv default_ := by
  have hmid := h.middle
  cases hph : o.phase <;> rw [hph] at hmid <;> simp only [step, hph, Option.some.injEq, reduceCtorEq] at hs
  case starting r =>
    subst hs
    have hne : o.marker = false → o.rating ≠ none :=
      h.rating_ne_none (by rw [hph]; nofun) (by rw [hph]; nofun)
    refine h.goto ?_ fun hf hn => absurd hn (hne hf)
    split_ifs with hready hm
    · cases r <;> exact hmid
    · exact hm
    · trivial
  case restarting =>
    subst hs
    refine h.goto ?_ fun hf => (nomatch hmid.1.symm.trans hf)
    split_ifs
    · exact hmid
    · trivial
  case idle =>
    subst hs
    split_ifs
    · exact h
    · exact h.goto trivial fun _ _ => .inl rfl

/-- **One step keeps the invariant**, if it is guarded. -/
theorem Inv.step (h : o.Inv default_) {a : Action ρ} (hg : o.Guarded a)
    (hs : o.step default_ a = some o') : o'.Inv default_ := by
  cases a with
  | boot =>
    simp only [Supervisor.step, Option.ite_none_right_eq_some] at hs
    obtain rfl := Option.some.inj hs.2
    split_ifs with hm
    · exact h.goto hm fun hf => (nomatch hm.symm.trans hf)
    · have hf : o.marker = false := by simpa using hm
      exact h.goto hf fun _ _ => .inr rfl
  | request r =>
    simp only [Supervisor.step, Option.ite_none_right_eq_some] at hs
    obtain ⟨hidle, hs⟩ := hs
    obtain rfl := Option.some.inj hs
    have hph : o.phase = .idle := by
      revert hidle
      cases o.phase <;> simp
    have hne : o.marker = false → o.rating ≠ none :=
      h.rating_ne_none (by rw [hph]; nofun) (by rw [hph]; nofun)
    cases r with
    | none => exact h.goto trivial fun hf hn => absurd hn (hne hf)
    | some r =>
      have grow : ∀ {x : ρ}, x ∈ default_ :: o.offered → x ∈ default_ :: r :: o.offered := by
        intro x hx
        rcases List.mem_cons.1 hx with rfl | hx
        · exact .head _
        · exact .tail _ (.tail _ hx)
      refine ⟨fun hf => ?_, h.marked, .head _, fun x hx => grow (h.rating x hx),
        fun x hx => grow (h.backup x hx)⟩
      rcases h.unmarked hf with hr | ⟨-, hr, -⟩
      · exact .inl hr
      · exact absurd hr (hne hf)
  | write ok => exact h.write hg hs
  | node ready => exact h.node hs
  | unlink => exact h.unlink hg hs
  | crash =>
    obtain rfl := Option.some.inj hs
    exact h.goto trivial fun _ _ => .inl rfl

/-! ### Runs -/

/-- **Rating changes are all-or-nothing on every guarded run.** -/
theorem allOrNothing_of_reach (h : Reach default_ Guarded o) :
    (o.Quiet → o.marker = false →
      o.rating = some o.committed ∨ o.phase = .down ∧ o.rating = none ∧ o.committed = default_) ∧
    ∀ r, o.rating = some r → r ∈ default_ :: o.offered := by
  have inv : o.Inv default_ := by
    induction h with
    | installed hi => exact hi.inv
    | step _ ok hs ih => exact ih.step ok hs
  refine ⟨fun hq hf => ?_, inv.rating⟩
  rcases inv.unmarked hf with hr | ⟨hph, hr, hc⟩
  · exact .inl hr
  · rcases hq with hidle | hdown
    · rw [hidle] at hph
      exact hph.elim nofun nofun
    · exact .inr ⟨hdown, hr, hc⟩

/-- What a run leads to is reached. -/
theorem Reach.runs {C : Supervisor ρ → Action ρ → Prop} {l : List (Action ρ)}
    (h : Reach default_ C o) (r : Runs default_ C o l o') : Reach default_ C o' := by
  induction r with
  | nil => exact h
  | cons ok hs _ ih => exact ih (.step h ok hs)

/-- An apply that commits. -/
theorem allOrNothing_of_apply :
    let o : Supervisor String := { phase := .idle, rating := some "new", backup := some "old",
                                   committed := "new", offered := ["new", "old"] }
    (o.Quiet → o.marker = false → o.rating = some o.committed ∨
      o.phase = .down ∧ o.rating = none ∧ o.committed = "default") ∧
    ∀ r, o.rating = some r → r ∈ "default" :: o.offered := by
  refine allOrNothing_of_reach (Reach.runs (.installed (.seeded (r := "old"))) (l := [.boot,
    .write true, .request (some "new"), .write true, .write true, .write true, .node true,
    .unlink]) ?_)
  refine .cons trivial rfl (.cons ?_ rfl (.cons trivial rfl (.cons ?_ rfl (.cons ?_ rfl (.cons ?_ rfl
    (.cons trivial rfl (.cons ?_ rfl .nil)))))))
  · exact nofun
  · exact fun r _ _ hm => nomatch hm
  · exact nofun
  · exact nofun
  · exact nofun

/-- **A failed apply may stay in force without the marker**: the node does not start, the
rollback cannot write the file, and a plain restart removes the marker. -/
theorem not_allOrNothing : ¬∀ (default_ : String) (o : Supervisor String),
    Reach default_ (fun _ _ => True) o → o.AllOrNothing default_ := by
  intro h
  have reached : Reach "default" (fun _ _ => True)
      ⟨.idle, some "new", some "old", false, "old", ["new", "old"]⟩ := by
    refine Reach.runs (.installed (.seeded (r := "old"))) (l := [.boot, .write true,
      .request (some "new"), .write true, .write true, .write true, .node false, .write false,
      .request none, .node true, .unlink]) ?_
    exact .cons trivial rfl (.cons trivial rfl (.cons trivial rfl (.cons trivial rfl (.cons trivial rfl
      (.cons trivial rfl (.cons trivial rfl (.cons trivial rfl (.cons trivial rfl (.cons trivial rfl
      (.cons trivial rfl .nil))))))))))
  rcases (h _ _ reached).1 (.inl rfl) rfl with hr | ⟨hd, -⟩
  · exact absurd hr (by decide)
  · exact nomatch hd

end Supervisor
end NodeHelper
end MorpheusGateway
