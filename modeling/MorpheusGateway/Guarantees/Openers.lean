/-
# One opener for each model

Requests and the worker start the opener of a model when the memory has none, and wait
for the one it has.  The entry is removed by those who waited, and by the callback that
the end of an opener schedules, which may come late.  Whoever removes it finds that the
recorded opener has finished (`opensOnce`): a request is cancelled without its opener,
and the callback of an earlier opener leaves a newer one alone.
-/

import MorpheusGateway.Protocol.Numbering

namespace MorpheusGateway

open Contract

variable {cfg : Config} {C : ItemRule}

/-- An opener of the model was spawned under this number and has not finished. -/
def Opens (s : World) (l : List LogItem) (h : ℕ) (model : String) : Prop :=
  (∃ revision, Spawned h (.opener model revision) l) ∧ s.memory.finished h = none

/-- The unfinished opener of a model is the recorded one. -/
def OpenersRecorded (s : World) (l : List LogItem) : Prop :=
  ∀ model h, Opens s l h model → s.memory.opening model = some h

/-- A model has one unfinished opener at most, and one task runs it. -/
structure OneOpener (s : World) (l : List LogItem) : Prop where
  spawned : ∀ model h h', Opens s l h model → Opens s l h' model → h = h'
  running : ∀ model t u h h' r r', Performs l t h (.opener model r) →
    Performs l u h' (.opener model r') → t = u

/-- At any time a model has one unfinished opener at most, which is recorded as soon as
another task can run.  An opener is spawned when there is none, recorded in place of none
or of one that has finished, removed when it has finished, and ended by its own task. -/
def OpensOnce : ItemRule := fun s l x =>
  OneOpener s l ∧ Between OpenersRecorded s l x ∧
  OnEvent (fun s l t e => match e with
    | .spawn _ (.opener model _) => ∀ h, ¬Opens s l h model
    | .opener model h => (∃ revision, Spawned h (.opener model revision) l) ∧
        ∀ h', s.memory.opening model = some h' → (s.memory.finished h').isSome = true
    | .dropOpener model => ∃ h, s.memory.opening model = some h ∧
        (s.memory.finished h).isSome = true
    | .finish h _ => ∀ model revision, Spawned h (.opener model revision) l →
        Performs l t h (.opener model revision)
    | _ => True) s l x

/-- **A model has one unfinished opener**, in every run. -/
theorem Run.oneOpener {s : World} {P : ℕ → Option Pc} {run : Option ℕ} {l : List LogItem}
    (tr : Run cfg C s P run l) : OneOpener s l := by
  have spawned : ∀ model h h', Opens s l h model → Opens s l h' model → h = h' := by
    rintro model h h' ⟨⟨r, hw⟩, hf⟩ ⟨⟨r', hw'⟩, hf'⟩
    exact tr.one_unfinished hw hw' rfl rfl hf hf'
  refine ⟨spawned, fun model t u h h' r r' hp hp' => ?_⟩
  obtain ⟨hw, hf, -⟩ := tr.numbered.running t h _ hp
  obtain ⟨hw', hf', -⟩ := tr.numbered.running u h' _ hp'
  obtain rfl := spawned model h h' ⟨⟨r, hw⟩, hf⟩ ⟨⟨r', hw'⟩, hf'⟩
  obtain rfl := (Work.opener.inj (tr.numbered.one h _ _ hw hw')).2
  exact tr.numbered.single t u h _ hp hp'

/-- **A model has one opener at a time**, whoever waits for it, is cancelled or comes late. -/
theorem opensOnce (cfg : Config) : Ensures cfg Always OpensOnce := by
  refine (Ensures.always fun tr => tr.oneOpener).and ((Ensures.between fun tr => ?_).and
    (Ensures.emit fun {s P l t pc e} tr hpc ok _ => ?_))
  · rintro model h ⟨⟨r, hw⟩, hf⟩
    refine (tr.slotted.recorded h _ (.opening model) hw rfl hf).resolve_right ?_
    rintro ⟨t, pc, hpc, hb⟩
    exact nomatch (tr.rested t pc hpc).2.symm.trans hb
  have slotted := tr.slotted
  have numbered := tr.numbered
  cases e with
  | spawn n w =>
    cases w with
    | opener model revision =>
      rintro h ⟨⟨r, hw⟩, hf⟩
      obtain ⟨-, hb, hnone, -⟩ := ok
      rcases slotted.recorded h _ (.opening model) hw rfl hf with hr | ⟨u, q, hq, hb'⟩
      · exact nomatch hnone.symm.trans hr
      · obtain rfl := Option.some.inj (tr.begins hq (by simp [hb']))
        obtain rfl := Option.some.inj (hpc.symm.trans hq)
        exact nomatch hb.symm.trans hb'
    | _ => exact trivial
  | opener model h =>
    obtain ⟨revision, hb⟩ := ok
    obtain ⟨hw, k, hk, free⟩ := slotted.begun t pc hpc h _ hb
    obtain rfl := Option.some.inj hk
    exact ⟨⟨revision, hw⟩, fun h' hh' => free h' hh'⟩
  | dropOpener model =>
    obtain ⟨o, ho, hf | ⟨handle, ht⟩⟩ := ok
    · exact ⟨o, ho, hf⟩
    · exact ⟨o, ho, slotted.callback handle o model (numbered.running t handle _ ⟨pc, hpc, ht⟩).1⟩
  | finish h r =>
    obtain ⟨w, ht, -⟩ := ok
    intro model revision hw
    obtain rfl := numbered.one h _ _ hw (numbered.running t h w ⟨pc, hpc, ht⟩).1
    exact ⟨pc, hpc, ht⟩
  | _ => exact trivial

end MorpheusGateway
