/-
# Names of models

A saved policy is found by what its models are called: `Policy.resolve` looks up an
ID or an alias in any letter case.  The validators keep IDs apart from IDs and aliases
from aliases; an alias is kept apart from the IDs by `HASH`, which wants a small `x`.
`unambiguous_iff` says for which policies a name means one model.
-/

import MorpheusGateway.Models
import Mathlib.Data.List.Nodup

namespace MorpheusGateway

/-! ### Validators -/

/-- A character of the pattern of an alias, after the first. -/
def isAliasChar (c : Char) : Bool :=
  c.isAlphanum || c = '.' || c = '_' || c = ':' || c = '/' || c = '-'

/-- The field `alias` of `ModelPolicy`: its length and its pattern. -/
def isAlias (s : String) : Bool :=
  match s.toList with
  | [] => false
  | c :: cs => c.isAlphanum && cs.all isAliasChar && decide (cs.length < 100)

/-- The fields of `ModelPolicy`; `Policy.valid_ids` has the rest of `model_id`. -/
def ModelPolicy.accepted (m : ModelPolicy) : Bool :=
  hexValue m.id ≠ 0 && isAlias m.aliasName &&
  decide (300 ≤ m.durationSeconds ∧ m.durationSeconds ≤ 86400) &&
  decide (m.idleSeconds ≤ 86400) && decide (1 ≤ m.maxSessions ∧ m.maxSessions ≤ 8) &&
  m.warmUntil.all fun w => decide (0 < w)

namespace Policy

/-- The fields of `Policy`; its structure has `unique_models`. -/
def accepted (p : Policy) : Bool :=
  p.models.all ModelPolicy.accepted && decide (p.models.length ≤ 100) &&
  decide (1 ≤ p.maxSessions ∧ p.maxSessions ≤ 32) &&
  decide (1 ≤ p.queueSeconds ∧ p.queueSeconds ≤ 300)

/-! ### What a name means -/

/-- The model is meant by the name: it is its ID or its alias, in any letter case. -/
def Means (name : String) (m : ModelPolicy) : Prop :=
  lower name = m.id ∨ lower name = lower m.aliasName

/-- **A name means at most one model**, in whatever order the models are listed: every
enabled model is found by its names, and nothing by any other. -/
def Unambiguous (p : Policy) : Prop :=
  ∀ q : Policy, q.models.Perm p.models →
    (∀ m ∈ p.models, m.enabled = true → ∀ name, Means name m → q.resolve name = some m) ∧
    ∀ name, (∀ m ∈ p.models, m.enabled = true → ¬Means name m) → q.resolve name = none

/-- No enabled model of `p` has the ID of another enabled model of `q` as an alias, in any
letter case. -/
def ApartFrom (p q : Policy) : Prop :=
  ∀ m ∈ p.models, ∀ n ∈ q.models, m.enabled = true → n.enabled = true → m.id ≠ n.id →
    lower m.aliasName ≠ n.id

/-- No enabled model has the ID of another as an alias, in any letter case. -/
def Apart (p : Policy) : Prop := p.ApartFrom p

/-- A model that is found is enabled and meant by the name. -/
theorem means_of_resolve {p : Policy} {name : String} {m : ModelPolicy}
    (h : p.resolve name = some m) : m ∈ p.models ∧ m.enabled = true ∧ Means name m := by
  obtain ⟨hm, he⟩ := resolve_mem h
  have hp := List.find?_some h
  rw [Bool.and_eq_true, Bool.or_eq_true, decide_eq_true_eq, decide_eq_true_eq] at hp
  exact ⟨hm, he, hp.2⟩

/-- A name that finds nothing means no enabled model. -/
theorem resolve_eq_none {p : Policy} {name : String} :
    p.resolve name = none ↔ ∀ m ∈ p.models, m.enabled = true → ¬Means name m := by
  rw [resolve, List.find?_eq_none]
  refine forall₂_congr fun m _ => ?_
  rw [Bool.and_eq_true, Bool.or_eq_true, decide_eq_true_eq, decide_eq_true_eq, not_and]
  exact Iff.rfl

/-- Listed under distinct keys, a model is known by its key. -/
theorem eq_of_key {α : Type} {f : ModelPolicy → α} {l : List ModelPolicy} (hl : (l.map f).Nodup)
    {m n : ModelPolicy} (hm : m ∈ l) (hn : n ∈ l) (h : f m = f n) : m = n :=
  List.inj_on_of_nodup_map hl hm hn h

/-- A name means one of the enabled models, if their aliases and IDs are apart. -/
theorem Apart.means_unique {p : Policy} (h : p.Apart) {m n : ModelPolicy} (hm : m ∈ p.models)
    (hn : n ∈ p.models) (em : m.enabled = true) (en : n.enabled = true) {name : String}
    (mm : Means name m) (mn : Means name n) : m = n := by
  have cross : ∀ {a b : ModelPolicy}, a ∈ p.models → b ∈ p.models → a.enabled = true →
      b.enabled = true → lower name = lower a.aliasName → lower name = b.id → a = b := by
    intro a b ha hb ea eb h1 h2
    by_contra hne
    have hid : a.id ≠ b.id := fun e => hne (eq_of_key p.unique_ids ha hb e)
    exact h a ha b hb ea eb hid (h1.symm.trans h2)
  rcases mm with h1 | h1
  · rcases mn with h2 | h2
    · exact eq_of_key p.unique_ids hm hn (h1.symm.trans h2)
    · exact (cross hn hm en em h2 h1).symm
  · rcases mn with h2 | h2
    · exact cross hm hn em en h1 h2
    · exact eq_of_key p.unique_aliases hm hn (h1.symm.trans h2)

/-- Looking a name up finds the one model it means. -/
theorem Apart.resolve {p q : Policy} (h : p.Apart) (hq : q.models.Perm p.models) {m : ModelPolicy}
    (hm : m ∈ p.models) (em : m.enabled = true) {name : String} (hn : Means name m) :
    q.resolve name = some m := by
  cases hr : q.resolve name with
  | none => exact absurd hn (resolve_eq_none.1 hr m (hq.symm.subset hm) em)
  | some n =>
    obtain ⟨hn', en, mn⟩ := means_of_resolve hr
    rw [h.means_unique (hq.subset hn') hm en em mn hn]

/-- The lower case of a lower case is itself. -/
theorem means_id {p : Policy} {m : ModelPolicy} (hm : m ∈ p.models) : Means m.id m :=
  .inl (p.valid_ids m hm).2

/-- **Names resolve unambiguously exactly when no enabled model's alias is another's ID**
in another letter case. -/
theorem unambiguous_iff (p : Policy) : p.Unambiguous ↔
    ∀ m ∈ p.models, ∀ n ∈ p.models, m.enabled = true → n.enabled = true → m.id ≠ n.id →
      lower m.aliasName ≠ n.id := by
  constructor
  · intro h m hm n hn em en hne heq
    have found := (h p (List.Perm.refl _)).1
    have hn' : p.resolve n.id = some n := found n hn en n.id (means_id hn)
    have hm' : p.resolve n.id = some m :=
      found m hm em n.id (.inr ((p.valid_ids n hn).2.trans heq.symm))
    have : m = n := Option.some.inj (hm'.symm.trans hn')
    exact hne (congrArg ModelPolicy.id this)
  · intro h q hq
    refine ⟨fun m hm em name hn => Apart.resolve h hq hm em hn, fun name hn => ?_⟩
    exact resolve_eq_none.2 fun m hm => hn m (hq.subset hm)

/-- A policy of two models, one of which has the other's ID as its alias, with a large `X`. -/
def shadowed : Policy where
  models := [
    { id := "0x" ++ String.ofList (List.replicate 64 '1'),
      aliasName := "0X" ++ String.ofList (List.replicate 64 '2') },
    { id := "0x" ++ String.ofList (List.replicate 64 '2'), aliasName := "second" }]
  valid_ids := by decide +kernel
  unique_ids := by decide +kernel
  unique_aliases := by decide +kernel
  alias_not_id := by decide +kernel

/-- The validators accept it. -/
theorem not_unambiguous_accepted : ¬∀ p : Policy, p.accepted = true → p.Unambiguous := by
  intro h
  have apart := (unambiguous_iff shadowed).1 (h shadowed (by decide +kernel))
  exact absurd (apart _ (.head _) _ (.tail _ (.head _)) rfl rfl (by decide +kernel))
    (by decide +kernel)

end Policy
end MorpheusGateway
