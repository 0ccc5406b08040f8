/-
# The saved policy

The settings an operator saves: the models with their retention and limits, the
provider lists, the wallet budget and the recovery switches.  A `Policy` carries
the checks its validator makes, so that a policy that breaks them cannot be built.

Wei amounts stay decimal text, as they are stored; `decimal` reads them.
-/

import MorpheusGateway.Json

namespace MorpheusGateway

/-- The weights of the provider rating. -/
structure Weights where
  tps : ℚ := 24 / 100
  ttft : ℚ := 8 / 100
  duration : ℚ := 24 / 100
  success : ℚ := 32 / 100
  stake : ℚ := 12 / 100

/-- Whether every provider is allowed, or only the listed ones. -/
inductive ProviderMode : Type where
  | all
  | allowlist
  deriving DecidableEq

/-- The provider lists, in lower case. -/
structure Providers where
  mode : ProviderMode := .all
  allow : List String := []
  deny : List String := []

/-- An address, not denied, and allowed by the mode. -/
def Providers.permits (p : Providers) (provider : String) : Bool :=
  let value := lower provider
  isAddress value && !p.deny.contains value && (p.mode = .all || p.allow.contains value)

/-- What keeps a session of a model alive. -/
inductive Retention : Type where
  | onDemand
  | untilExpiry
  | maintain
  deriving DecidableEq

/-- The settings of one model. -/
structure ModelPolicy where
  id : String
  aliasName : String
  enabled : Bool := true
  durationSeconds : ℕ := 1800
  retention : Retention := .onDemand
  idleSeconds : ℕ := 300
  maxSessions : ℕ := 1
  warmUntil : Option ℕ := none

/-- The recovery switches. -/
structure RecoveryPolicy where
  enabled : Bool := true
  autoWithdraw : Bool := true
  cleanupUntrackedExpired : Bool := true
  cleanupUntrackedLive : Bool := false
  orphanGraceSeconds : ℕ := 600
  withdrawalMinWei : String := "1000000000000000"
  withdrawalIntervalSeconds : ℕ := 300
  providerCooldownSeconds : ℕ := 120

/-- The wallet budget. -/
structure Budget where
  maxSessionStakeWei : String := "100000000000000000000"
  maxTotalStakeWei : String := "400000000000000000000"
  maxPricePerSecondWei : String := "1000000000000000000"
  minLiquidMorWei : String := "0"
  minEthWei : String := "100000000000000"

/-- The saved settings, with the checks of `model_id` and `unique_models`. -/
structure Policy where
  revision : ℕ := 0
  models : List ModelPolicy := []
  providers : Providers := {}
  weights : Weights := {}
  maxSessions : ℕ := 4
  queueSeconds : ℕ := 30
  paused : Bool := false
  recovery : RecoveryPolicy := {}
  budget : Budget := {}
  valid_ids : ∀ m ∈ models, isHash m.id = true ∧ lower m.id = m.id := by decide
  unique_ids : (models.map ModelPolicy.id).Nodup := by decide
  unique_aliases : (models.map fun m => lower m.aliasName).Nodup := by decide
  alias_not_id : ∀ m ∈ models, isHash m.aliasName = false := by decide

namespace Policy

/-- The first enabled model with this ID or alias, in any letter case. -/
def resolve (p : Policy) (name : String) : Option ModelPolicy :=
  p.models.find? fun m => m.enabled && (lower name = m.id || lower name = lower m.aliasName)

/-- The policy under its next revision. -/
def bump (p : Policy) : Policy := { p with revision := p.revision + 1 }

/-- The policy with the retention of the model `id` set to on-demand. -/
def stopMaintaining (p : Policy) (id : String) : Policy where
  revision := p.revision
  models := p.models.map fun m => if m.id = id then { m with retention := .onDemand } else m
  providers := p.providers
  weights := p.weights
  maxSessions := p.maxSessions
  queueSeconds := p.queueSeconds
  paused := p.paused
  recovery := p.recovery
  budget := p.budget
  valid_ids := by
    intro m hm
    obtain ⟨n, hn, rfl⟩ := List.mem_map.1 hm
    split_ifs
    · exact p.valid_ids n hn
    · exact p.valid_ids n hn
  unique_ids := by
    convert p.unique_ids using 1
    rw [List.map_map]
    exact List.map_congr_left fun m _ => by simp only [Function.comp]; split_ifs <;> rfl
  unique_aliases := by
    convert p.unique_aliases using 1
    rw [List.map_map]
    exact List.map_congr_left fun m _ => by simp only [Function.comp]; split_ifs <;> rfl
  alias_not_id := by
    intro m hm
    obtain ⟨n, hn, rfl⟩ := List.mem_map.1 hm
    split_ifs
    · exact p.alias_not_id n hn
    · exact p.alias_not_id n hn

/-- What is sent to the node helper: the lists and the weights. -/
def rating (p : Policy) : List String × List String × Weights :=
  (if p.providers.mode = .allowlist then p.providers.allow else [], p.providers.deny, p.weights)

/-- The next revision. -/
@[simp] theorem bump_revision (p : Policy) : p.bump.revision = p.revision + 1 := rfl

/-- The same revision. -/
@[simp] theorem stopMaintaining_revision (p : Policy) (id : String) :
    (p.stopMaintaining id).revision = p.revision := rfl

/-- A resolved model is a saved model that is enabled. -/
theorem resolve_mem {p : Policy} {name : String} {m : ModelPolicy} (h : p.resolve name = some m) :
    m ∈ p.models ∧ m.enabled = true := by
  have hp := List.find?_some h
  rw [Bool.and_eq_true] at hp
  exact ⟨List.mem_of_find?_eq_some h, hp.1⟩

end Policy
end MorpheusGateway
