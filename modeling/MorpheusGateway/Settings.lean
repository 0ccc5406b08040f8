/-
# The settings as JSON

The models of `gateway/models.py` as they are validated and written: every field with its
name, its default and its checks.  A number or a switch is read leniently, as a string or
from a float, and written as what it is.

The lenient conversions are the schema library's, and the sum of the weights is the sum of
floats.  `Runtime` has what is relied on of both.
-/

import MorpheusGateway.Codec
import MorpheusGateway.Hex
import MorpheusGateway.Policies
import Mathlib.Algebra.Order.Ring.Rat
import Mathlib.Data.Finset.Sort
import Mathlib.Data.String.Basic

namespace MorpheusGateway

/-- The conversions of the schema library, and floats: their text, `sum`,
`math.isclose(x, 1, abs_tol=1e-9)` and `math.nextafter` up and down.  Nonnegative numbers
add up to at least each of them, and no float lies between `nextafter` and its argument. -/
structure Runtime where
  toBool : Json → Option Bool
  toInt : Json → Option ℤ
  toFloat : Json → Option ℚ
  repr : ℚ → String
  sum : List ℚ → ℚ
  isClose : ℚ → Bool
  nextUp : ℚ → ℚ
  nextDown : ℚ → ℚ
  toBool_bool : ∀ b, toBool (.bool b) = some b
  toInt_num : ∀ n, toInt (.num n) = some n
  toFloat_float : ∀ s q, toFloat (.float s (.finite q)) = some q
  isClose_one : isClose 1 = true
  le_sum : ∀ vs, (∀ v ∈ vs, 0 ≤ v ∧ v ≤ 1) → ∀ v ∈ vs, v ≤ sum vs
  sum_zero : ∀ vs, (∀ v ∈ vs, v = 0) → sum vs = 0
  nextUp_mem : ∀ v, 0 ≤ v → v < 1 → 0 ≤ nextUp v ∧ nextUp v ≤ 1
  nextDown_mem : ∀ v, 0 < v → v ≤ 1 → 0 ≤ nextDown v ∧ nextDown v ≤ 1

namespace Runtime

variable (r : Runtime)

/-- A switch. -/
def bool : Codec Bool where
  read := r.toBool
  dump := .bool
  stable _ b _ := r.toBool_bool b

/-- Every flag is good. -/
@[simp] theorem good_bool (b : Bool) : r.bool.Good b := r.toBool_bool b

/-- An integer from `lo` to `hi`. -/
def int (lo : ℕ) (hi : Option ℕ) : Codec ℕ where
  read x := (r.toInt x).bind fun n =>
    if (lo : ℤ) ≤ n ∧ (hi.all fun (h : ℕ) => n ≤ (h : ℤ)) then some n.toNat else none
  dump n := .num n
  stable x v h := by
    obtain ⟨n, -, h⟩ := Option.bind_eq_some_iff.1 h
    split_ifs at h with hn
    obtain rfl := Option.some.inj h
    have hc : (n.toNat : ℤ) = n := Int.toNat_of_nonneg (le_trans (Int.natCast_nonneg lo) hn.1)
    rw [r.toInt_num, Option.bind_some, hc, if_pos hn]

/-- A number is good within its bounds. -/
@[simp] theorem good_int {lo : ℕ} {hi : Option ℕ} {n : ℕ} :
    (r.int lo hi).Good n ↔ lo ≤ n ∧ (hi.all fun h => n ≤ h) = true := by
  change (r.toInt (.num n)).bind _ = some n ↔ _
  rw [r.toInt_num, Option.bind_some]
  simp

/-- A share: a float from 0 to 1. -/
def share : Codec ℚ where
  read x := (r.toFloat x).filter fun q => decide (0 ≤ q) && decide (q ≤ 1)
  dump q := .float (r.repr q) (.finite q)
  stable x q h := by
    rw [r.toFloat_float]
    exact Option.filter_eq_some_iff.2 ⟨rfl, (Option.filter_eq_some_iff.1 h).2⟩

/-- A share is good between 0 and 1. -/
@[simp] theorem good_share {q : ℚ} : r.share.Good q ↔ 0 ≤ q ∧ q ≤ 1 := by
  change (r.toFloat (.float (r.repr q) (.finite q))).filter _ = some q ↔ _
  rw [r.toFloat_float]
  simp [Option.filter_eq_some_iff]

end Runtime

/-! ### Weights -/

/-- `self.model_dump().values()`. -/
def Weights.values (w : Weights) : List ℚ := [w.tps, w.ttft, w.duration, w.success, w.stake]

/-- The weights with these values. -/
def Weights.setValues (w : Weights) : List ℚ → Weights
  | [tps, ttft, duration, success, stake] => ⟨tps, ttft, duration, success, stake⟩
  | _ => w

/-- The index of the first largest value. -/
def largest (values : List ℚ) : ℕ := values.findIdx fun v => values.all fun w => w ≤ v

/-- Move the largest value by one float, up to so many times, until the sum is 1. -/
def nudge (r : Runtime) : ℕ → List ℚ → List ℚ
  | 0, values => values
  | n + 1, values =>
    let total := r.sum values
    if total = 1 then values
    else nudge r n (values.modify (largest values) (if total < 1 then r.nextUp else r.nextDown))

/-- `Weights.sum_to_one`. -/
def Weights.sumToOne (r : Runtime) (w : Weights) : Except String Weights :=
  if ¬ r.isClose (r.sum w.values) then .error "Rating weights must add up to 1 (100%)"
  else
    let values := nudge r 8 w.values
    if r.sum values ≠ 1 then .error "Rating weights could not be normalized"
    else .ok (w.setValues values)

/-- What a change of one item leaves true of all of them. -/
theorem forall_modify {α : Type} {P : α → Prop} {f : α → α} :
    ∀ {l : List α} {i : ℕ}, (∀ v ∈ l, P v) → (∀ v, l[i]? = some v → P (f v)) →
      ∀ v ∈ l.modify i f, P v
  | [], _, _, _ => by simp
  | v :: l, 0, h, hf => by
    intro w hw
    rw [List.modify_zero_cons, List.mem_cons] at hw
    rcases hw with rfl | hw
    · exact hf v rfl
    · exact h w (.tail _ hw)
  | v :: l, i + 1, h, hf => by
    intro w hw
    rw [List.modify_succ_cons, List.mem_cons] at hw
    rcases hw with rfl | hw
    · exact h w (.head _)
    · exact forall_modify (fun u hu => h u (.tail _ hu)) (fun u hu => hf u hu) w hw

/-- The largest value bounds the others. -/
theorem le_largest {values : List ℚ} {v : ℚ} (h : values[largest values]? = some v) :
    v ∈ values ∧ ∀ w ∈ values, w ≤ v := by
  refine ⟨List.mem_of_getElem? h, ?_⟩
  obtain ⟨hi, rfl⟩ := List.getElem?_eq_some_iff.1 h
  have hp := List.findIdx_getElem (w := hi)
  exact fun w hw => of_decide_eq_true (List.all_eq_true.1 hp w hw)

/-- **Shares stay shares** while they are moved to a sum of 1. -/
theorem nudge_mem (r : Runtime) : ∀ (n : ℕ) {values : List ℚ}, (∀ v ∈ values, 0 ≤ v ∧ v ≤ 1) →
    (nudge r n values).length = values.length ∧ ∀ v ∈ nudge r n values, 0 ≤ v ∧ v ≤ 1
  | 0, _, h => ⟨rfl, h⟩
  | n + 1, values, h => by
    have moved : ∀ v ∈ values.modify (largest values)
        (if r.sum values < 1 then r.nextUp else r.nextDown), r.sum values ≠ 1 → 0 ≤ v ∧ v ≤ 1 := by
      intro v hv h1
      refine forall_modify (P := fun v => 0 ≤ v ∧ v ≤ 1) h (fun v hv => ?_) v hv
      obtain ⟨hm, hle⟩ := le_largest hv
      by_cases hlt : r.sum values < 1
      · rw [if_pos hlt]
        exact r.nextUp_mem v (h v hm).1 (lt_of_le_of_lt (r.le_sum values h v hm) hlt)
      · -- the sum is above 1, so that not all of them are 0
        rw [if_neg hlt]
        refine r.nextDown_mem v (lt_of_le_of_ne (h v hm).1 fun h0 => ?_) (h v hm).2
        have hz : r.sum values = 0 :=
          r.sum_zero values fun w hw => le_antisymm (h0 ▸ hle w hw) (h w hw).1
        rw [hz] at hlt
        exact hlt one_pos
    unfold nudge
    dsimp only
    by_cases h1 : r.sum values = 1
    · rw [if_pos h1]
      exact ⟨rfl, h⟩
    · rw [if_neg h1]
      obtain ⟨hl, hm⟩ := nudge_mem r n fun v hv => moved v hv h1
      exact ⟨hl.trans (List.length_modify ..), hm⟩

/-- Weights that were normalised are shares that add up to 1, and stay as they are. -/
theorem Weights.sumToOne_idem {r : Runtime} {w w' : Weights} (h : ∀ v ∈ w.values, 0 ≤ v ∧ v ≤ 1)
    (hw : w.sumToOne r = .ok w') :
    (∀ v ∈ w'.values, 0 ≤ v ∧ v ≤ 1) ∧ w'.sumToOne r = .ok w' := by
  unfold sumToOne at hw
  dsimp only at hw
  split_ifs at hw with hc h1
  obtain rfl := Except.ok.inj hw
  obtain ⟨hl, hm⟩ := nudge_mem r 8 h
  have hv : (w.setValues (nudge r 8 w.values)).values = nudge r 8 w.values := by
    revert hl
    rcases nudge r 8 w.values with _ | ⟨a, _ | ⟨b, _ | ⟨c, _ | ⟨d, _ | ⟨e, _ | ⟨f, l⟩⟩⟩⟩⟩⟩ <;>
      simp [values, setValues]
  have h1 : r.sum (nudge r 8 w.values) = 1 := not_not.1 h1
  refine ⟨by rwa [hv], ?_⟩
  have still : nudge r 8 (nudge r 8 w.values) = nudge r 8 w.values := by
    rw [nudge]
    exact if_pos h1
  unfold sumToOne
  dsimp only
  rw [hv, h1, r.isClose_one, still, h1, if_neg (by simp), if_neg (by simp)]
  refine congrArg Except.ok ?_
  rcases nudge r 8 w.values with _ | ⟨a, _ | ⟨b, _ | ⟨c, _ | ⟨d, _ | ⟨e, _ | ⟨f, l⟩⟩⟩⟩⟩⟩ <;>
    rfl

/-- The fields of `Weights`. -/
def Weights.fields (r : Runtime) : Record (ℚ × ℚ × ℚ × ℚ × ℚ × Unit) :=
  .optional "tps" (24 / 100) r.share <|
  .optional "ttft" (8 / 100) r.share <|
  .optional "duration" (24 / 100) r.share <|
  .optional "success" (32 / 100) r.share <|
  .optional "stake" (12 / 100) r.share .done

/-- Weights are good if they are shares. -/
theorem Weights.good_fields {r : Runtime} {w : Weights} :
    (∀ v ∈ w.values, 0 ≤ v ∧ v ≤ 1) ↔
      (fields r).Good (w.tps, w.ttft, w.duration, w.success, w.stake, ()) := by
  simp [fields, values]

/-- `Weights`. -/
def Weights.schema (r : Runtime) : Codec Weights :=
  (fields r).codec
    (fun (tps, ttft, duration, success, stake, _) => sumToOne r ⟨tps, ttft, duration, success, stake⟩)
    (fun w => (w.tps, w.ttft, w.duration, w.success, w.stake, ()))
    fun x (tps, ttft, duration, success, stake, _) w ht hw => by
      obtain ⟨hv, hw⟩ := sumToOne_idem (good_fields.2 ((fields r).stable x _ ht)) hw
      exact ⟨good_fields.1 hv, hw⟩

/-! ### Providers -/

/-- `Providers.addresses`. -/
def Providers.addresses (values : List String) : Except String (List String) :=
  if values.any fun v => !isAddress v then
    .error "Provider addresses must be 0x followed by 40 hex characters"
  else .ok ((values.map lower).toFinset.sort)

/-- The normal form of a list: addresses in lower case, in order, each of them once. -/
theorem Providers.addresses_eq {values ws : List String} (h : addresses values = .ok ws) :
    (∀ v ∈ values, isAddress v = true) ∧ ws = (values.map lower).toFinset.sort := by
  unfold addresses at h
  split_ifs at h with ha
  refine ⟨fun v hv => ?_, (Except.ok.inj h).symm⟩
  by_contra hn
  exact ha (List.any_eq_true.2 ⟨v, hv, by simpa using hn⟩)

/-- The addresses are the ones given, in lower case. -/
theorem Providers.mem_addresses {values ws : List String} (h : addresses values = .ok ws)
    (a : String) : a ∈ ws ↔ ∃ v ∈ values, lower v = a := by
  rw [(addresses_eq h).2, Finset.mem_sort, List.mem_toFinset, List.mem_map]

/-- A normal form is one of no more addresses, and is its own normal form. -/
theorem Providers.addresses_idem {values ws : List String} (h : addresses values = .ok ws) :
    ws.length ≤ values.length ∧ addresses ws = .ok ws := by
  obtain ⟨ha, hws⟩ := addresses_eq h
  constructor
  · rw [hws, Finset.length_sort, ← List.length_map (f := lower)]
    exact List.toFinset_card_le _
  · have hm : ∀ w ∈ ws, isAddress w = true ∧ lower w = w := by
      intro w hw
      obtain ⟨v, hv, rfl⟩ := (mem_addresses h w).1 hw
      exact ⟨isHex_lower (ha v hv), lower_lower v⟩
    have same : ws.map lower = ws := (List.map_congr_left fun w hw => (hm w hw).2).trans (List.map_id ws)
    unfold addresses
    rw [if_neg, same, hws, Finset.sort_toFinset]
    simp only [List.any_eq_true, not_exists, not_and]
    exact fun w hw => by simp [(hm w hw).1]

/-- The field `allow` or `deny`. -/
def addressList : Codec (List String) :=
  (Codec.text.list (some 1000)).normalise Providers.addresses id fun x values ws hr h => by
    obtain ⟨hl, hw⟩ := Providers.addresses_idem h
    have hlen : values.length ≤ 1000 := by
      simpa using (Codec.good_list.1 (Codec.good_of_read _ hr)).1
    exact ⟨Codec.good_list.2 ⟨by simpa using hl.trans hlen, fun _ _ => rfl⟩, hw⟩

/-- No addresses are good. -/
@[simp] theorem good_addressList_nil : addressList.Good [] :=
  Codec.good_normalise rfl (by simp [Providers.addresses])

/-- `Providers.mode`. -/
def ProviderMode.schema : Codec ProviderMode :=
  .literal [("all", .all), ("allowlist", .allowlist)]
    (fun | .all => "all" | .allowlist => "allowlist") fun m => by cases m <;> rfl

/-- Every mode is good. -/
@[simp] theorem ProviderMode.good_schema (m : ProviderMode) : schema.Good m := Codec.good_literal m

/-- `Providers`. -/
def Providers.schema : Codec Providers :=
  Record.plain
    (.optional "mode" .all ProviderMode.schema <|
     .optional "allow" [] addressList <|
     .optional "deny" [] addressList .done)
    (fun (mode, allow, deny, _) => ⟨mode, allow, deny⟩)
    (fun p => (p.mode, p.allow, p.deny, ()))
    fun _ => rfl

/-! ### Models -/

/-- A hash in lower case. -/
abbrev ModelId : Type := { id : String // isHash id = true ∧ lower id = id }

/-- `ModelPolicy.model_id`. -/
def modelId (value : String) : Except String ModelId :=
  if h : isHash value = true ∧ hexValue value ≠ 0 then
    .ok ⟨lower value, isHex_lower h.1, lower_lower value⟩
  else .error "Use a nonzero on-chain model ID (0x + 64 hex characters)"

/-- An ID that was normalised stays as it is. -/
theorem modelId_idem {value : String} {id : ModelId} (h : modelId value = .ok id) :
    modelId id.1 = .ok id := by
  unfold modelId at h
  split_ifs at h with hv
  obtain rfl := Except.ok.inj h
  unfold modelId
  rw [dif_pos ⟨isHex_lower hv.1, by rw [hexValue_lower hv.1]; exact hv.2⟩]
  simp only [lower_lower]

/-- The field `id`. -/
def ModelId.schema : Codec ModelId :=
  Codec.text.normalise modelId Subtype.val fun _ _ _ _ h => ⟨rfl, modelId_idem h⟩

/-- `ModelPolicy.retention`. -/
def Retention.schema : Codec Retention :=
  .literal [("on_demand", .onDemand), ("until_expiry", .untilExpiry), ("maintain", .maintain)]
    (fun | .onDemand => "on_demand" | .untilExpiry => "until_expiry" | .maintain => "maintain")
    fun m => by cases m <;> rfl

/-- Every retention is good. -/
@[simp] theorem Retention.good_schema (m : Retention) : schema.Good m := Codec.good_literal m

/-- A model whose ID is a hash in lower case. -/
abbrev ValidModel : Type := { m : ModelPolicy // isHash m.id = true ∧ lower m.id = m.id }

/-- The field `warm_until`: a moment after 0, or `None`. -/
def Runtime.moment (r : Runtime) : Codec (Option ℕ) := (r.int 1 none).nullable fun _ => nofun

/-- No moment is good. -/
@[simp] theorem Runtime.good_moment_none (r : Runtime) : r.moment.Good none :=
  Codec.good_nullable_none

/-- `ModelPolicy`. -/
def ModelPolicy.schema (r : Runtime) : Codec ValidModel :=
  Record.plain
    (.required "id" ModelId.schema <|
     .required "alias" (Codec.text.such isAlias) <|
     .optional "enabled" true r.bool <|
     .optional "duration_seconds" 1800 (r.int 300 (some 86400)) <|
     .optional "retention" .onDemand Retention.schema <|
     .optional "idle_seconds" 300 (r.int 0 (some 86400)) <|
     .optional "max_sessions" 1 (r.int 1 (some 8)) <|
     .optional "warm_until" none r.moment .done)
    (fun (id, aliasName, enabled, durationSeconds, retention, idleSeconds, maxSessions, warmUntil, _) =>
      ⟨{ id := id.1, aliasName, enabled, durationSeconds, retention, idleSeconds, maxSessions,
         warmUntil }, id.2⟩)
    (fun m => (⟨m.1.id, m.2⟩, m.1.aliasName, m.1.enabled, m.1.durationSeconds, m.1.retention,
      m.1.idleSeconds, m.1.maxSessions, m.1.warmUntil, ()))
    fun _ => rfl

/-! ### Recovery and budget -/

/-- The pattern `^[0-9]{1,78}$`. -/
def isWei (s : String) : Bool :=
  s.toList.all (fun c => '0' ≤ c && c ≤ '9') && decide (1 ≤ s.length ∧ s.length ≤ 78)

/-- The pattern `^[1-9][0-9]{0,77}$`. -/
def isPositiveWei (s : String) : Bool := isWei s && s.toList.head? ≠ some '0'

/-- `RecoveryPolicy`. -/
def RecoveryPolicy.schema (r : Runtime) : Codec RecoveryPolicy :=
  Record.plain
    (.optional "enabled" true r.bool <|
     .optional "auto_withdraw" true r.bool <|
     .optional "cleanup_untracked_expired" true r.bool <|
     .optional "cleanup_untracked_live" false r.bool <|
     .optional "orphan_grace_seconds" 600 (r.int 120 (some 86400)) <|
     .optional "withdrawal_min_wei" "1000000000000000" (Codec.text.such isWei) <|
     .optional "withdrawal_interval_seconds" 300 (r.int 30 (some 86400)) <|
     .optional "provider_cooldown_seconds" 120 (r.int 1 (some 3600)) .done)
    (fun (enabled, autoWithdraw, cleanupUntrackedExpired, cleanupUntrackedLive, orphanGraceSeconds,
        withdrawalMinWei, withdrawalIntervalSeconds, providerCooldownSeconds, _) =>
      { enabled, autoWithdraw, cleanupUntrackedExpired, cleanupUntrackedLive, orphanGraceSeconds,
        withdrawalMinWei, withdrawalIntervalSeconds, providerCooldownSeconds })
    (fun p => (p.enabled, p.autoWithdraw, p.cleanupUntrackedExpired, p.cleanupUntrackedLive,
      p.orphanGraceSeconds, p.withdrawalMinWei, p.withdrawalIntervalSeconds,
      p.providerCooldownSeconds, ()))
    fun _ => rfl

/-- `Budget`. -/
def Budget.schema : Codec Budget :=
  Record.plain
    (.optional "max_session_stake_wei" "100000000000000000000" (Codec.text.such isPositiveWei) <|
     .optional "max_total_stake_wei" "400000000000000000000" (Codec.text.such isPositiveWei) <|
     .optional "max_price_per_second_wei" "1000000000000000000" (Codec.text.such isPositiveWei) <|
     .optional "min_liquid_mor_wei" "0" (Codec.text.such isWei) <|
     .optional "min_eth_wei" "100000000000000" (Codec.text.such isWei) .done)
    (fun (maxSessionStakeWei, maxTotalStakeWei, maxPricePerSecondWei, minLiquidMorWei, minEthWei, _) =>
      { maxSessionStakeWei, maxTotalStakeWei, maxPricePerSecondWei, minLiquidMorWei, minEthWei })
    (fun b => (b.maxSessionStakeWei, b.maxTotalStakeWei, b.maxPricePerSecondWei, b.minLiquidMorWei,
      b.minEthWei, ()))
    fun _ => rfl

/-! ### The policy -/

namespace Policy

/-- The models of a policy, with what is known of their IDs. -/
def validModels (p : Policy) : List ValidModel :=
  p.models.attach.map fun m => ⟨m.1, p.valid_ids m.1 m.2⟩

/-- The models with their checks are the models. -/
theorem validModels_val (p : Policy) : p.validModels.map Subtype.val = p.models := by
  unfold validModels
  rw [List.map_map]
  exact List.attach_map_subtype_val p.models

/-- `Policy.unique_models` of a policy with these fields. -/
def uniqueModels (revision : ℕ) (models : List ValidModel) (providers : Providers)
    (weights : Weights) (maxSessions queueSeconds : ℕ) (paused : Bool) (recovery : RecoveryPolicy)
    (budget : Budget) : Except String Policy :=
  let saved := models.map Subtype.val
  if ids : (saved.map ModelPolicy.id).Nodup then
    if aliases : (saved.map fun m => lower m.aliasName).Nodup then
      if hash : ∀ m ∈ saved, isHash m.aliasName = false then
        .ok
          { revision, models := saved, providers, weights, maxSessions, queueSeconds, paused,
            recovery, budget
            valid_ids := fun m hm => by
              obtain ⟨v, -, rfl⟩ := List.mem_map.1 hm
              exact v.2
            unique_ids := ids, unique_aliases := by exact aliases, alias_not_id := hash }
      else .error "An alias cannot itself be a blockchain ID"
    else .error "Model aliases must be unique"
  else .error "Model IDs must be unique"

/-- `Policy`. -/
def schema (r : Runtime) : Codec Policy :=
  Record.checked
    (.optional "revision" 0 (r.int 0 none) <|
     .optional "models" [] ((ModelPolicy.schema r).list (some 100)) <|
     .nested "providers" Providers.schema <|
     .nested "weights" (Weights.schema r) <|
     .optional "max_sessions" 4 (r.int 1 (some 32)) <|
     .optional "queue_seconds" 30 (r.int 1 (some 300)) <|
     .optional "paused" false r.bool <|
     .nested "recovery" (RecoveryPolicy.schema r) <|
     .nested "budget" Budget.schema .done)
    (fun (revision, models, providers, weights, maxSessions, queueSeconds, paused, recovery, budget, _) =>
      uniqueModels revision models providers weights maxSessions queueSeconds paused recovery budget)
    (fun p => (p.revision, p.validModels, p.providers, p.weights, p.maxSessions, p.queueSeconds,
      p.paused, p.recovery, p.budget, ()))
    fun (revision, models, providers, weights, maxSessions, queueSeconds, paused, recovery, budget, _) p h => by
      unfold uniqueModels at h
      dsimp only at h
      split_ifs at h with ids aliases hash
      obtain rfl := Except.ok.inj h
      have hm : ∀ p : Policy, p.models = models.map Subtype.val → p.validModels = models :=
        fun p hp => List.map_injective_iff.2 Subtype.val_injective (p.validModels_val.trans hp)
      dsimp only
      rw [hm _ rfl]

/-- `Policy.model_validate`, `None` where it raises. -/
def validate (r : Runtime) (j : Json) : Option Policy := (schema r).read j

/-- `Policy.model_dump`. -/
def dump (r : Runtime) (p : Policy) : Json := (schema r).dump p

/-- `Policy.rating` as it is sent. -/
def ratingJson (r : Runtime) (p : Policy) : Json :=
  let (allow, deny, weights) := p.rating
  .obj [("algorithm", .str "default"), ("providerAllowlist", .arr (allow.map .str)),
    ("providerDenylist", .arr (deny.map .str)),
    ("params", .obj [("weights", (Weights.schema r).dump weights)])]

end Policy
end MorpheusGateway
