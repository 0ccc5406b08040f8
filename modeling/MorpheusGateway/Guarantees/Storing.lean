/-
# Settings survive storage and transport

A policy that was accepted is read back from what is written of it.  Its rating passes the
helper's schema and normal form as it is, and is the helper's rating from an apply that
succeeds until the next one.  The provider lists mean the same in any letter case, in any
order and however often an address is listed.
-/

import MorpheusGateway.NodeHelper.Rating
import Mathlib.Algebra.Order.BigOperators.Group.List

namespace MorpheusGateway

open Codec Record

/-! ### The provider lists -/

/-- The strings of the list `key`, as they are given. -/
def sentList (x : Json) (key : String) : List String :=
  match x.get? key with
  | some (.arr ys) => ys.filterMap fun
    | .str s => some s
    | _ => none
  | _ => []

/-- The list of strings that is read has all of them. -/
theorem read_texts {ys : List Json} {vs : List String} (h : ys.mapM text.read = some vs) :
    (ys.filterMap fun | .str s => some s | _ => none) = vs := by
  induction ys generalizing vs with
  | nil => exact (Option.some.inj h)
  | cons y ys ih =>
    rw [List.mapM_cons] at h
    obtain ⟨w, hw, h⟩ := Option.bind_eq_some_iff.1 h
    obtain ⟨ws, hws, h⟩ := Option.bind_eq_some_iff.1 h
    obtain rfl : w :: ws = vs := Option.some.inj h
    cases y with
    | str s =>
      obtain rfl : s = w := Option.some.inj hw
      rw [List.filterMap_cons, ih hws]
    | _ => exact nomatch hw

/-- An address list is read as the normal form of what is given. -/
theorem read_addressList {x : Json} {key : String} {ws : List String}
    (h : (match x.get? key with
      | some y => addressList.read y
      | none => some []) = some ws) : Providers.addresses (sentList x key) = .ok ws := by
  unfold sentList
  cases hx : x.get? key with
  | none =>
    rw [hx] at h
    obtain rfl := Option.some.inj h
    simp [Providers.addresses]
  | some y =>
    rw [hx] at h
    obtain ⟨vs, hvs, hv⟩ := Option.bind_eq_some_iff.1 h
    cases y with
    | arr ys =>
      obtain ⟨-, hvs⟩ := Option.ite_none_right_eq_some.1 hvs
      dsimp only
      rw [read_texts hvs]
      exact toOption_eq_some.1 hv
    | _ => cases hvs

/-- Providers are read list by list. -/
theorem read_providers {x : Json} {P : Providers} (h : Providers.schema.read x = some P) :
    Providers.addresses (sentList x "allow") = .ok P.allow ∧
      Providers.addresses (sentList x "deny") = .ok P.deny := by
  obtain ⟨-, t, ht, rfl⟩ := read_plain.1 h
  obtain ⟨-, ht⟩ := read_optional.1 ht
  obtain ⟨ha, ht⟩ := read_optional.1 ht
  obtain ⟨hd, -⟩ := read_optional.1 ht
  exact ⟨read_addressList ha, read_addressList hd⟩

/-- **Who is permitted**: an address that is not denied, and is allowed by the mode. -/
theorem permits_iff {x : Json} {P : Providers} (h : Providers.schema.read x = some P) (a : String) :
    P.permits a = true ↔ isAddress (lower a) = true ∧ lower a ∉ (sentList x "deny").map lower ∧
      (P.mode = .all ∨ lower a ∈ (sentList x "allow").map lower) := by
  obtain ⟨ha, hd⟩ := read_providers h
  have allowed : lower a ∈ P.allow ↔ lower a ∈ (sentList x "allow").map lower := by
    rw [Providers.mem_addresses ha, List.mem_map]
  have denied : lower a ∈ P.deny ↔ lower a ∈ (sentList x "deny").map lower := by
    rw [Providers.mem_addresses hd, List.mem_map]
  rw [← allowed, ← denied]
  simp [Providers.permits, and_assoc]

/-- Lists of the same addresses make the same providers. -/
theorem providers_eq {x y : Json} {P Q : Providers} (hx : Providers.schema.read x = some P)
    (hy : Providers.schema.read y = some Q) (hm : P.mode = Q.mode)
    (same : ∀ key, key = "allow" ∨ key = "deny" →
      ∀ a, a ∈ (sentList x key).map lower ↔ a ∈ (sentList y key).map lower) : P = Q := by
  obtain ⟨ha, hd⟩ := read_providers hx
  obtain ⟨ha', hd'⟩ := read_providers hy
  have sorted {key : String} {ws ws' : List String} (hk : key = "allow" ∨ key = "deny")
      (h : Providers.addresses (sentList x key) = .ok ws)
      (h' : Providers.addresses (sentList y key) = .ok ws') : ws = ws' := by
    have set : ((sentList x key).map lower).toFinset = ((sentList y key).map lower).toFinset :=
      Finset.ext fun a => by rw [List.mem_toFinset, List.mem_toFinset, same key hk]
    rw [(Providers.addresses_eq h).2, (Providers.addresses_eq h').2, set]
  cases P
  cases Q
  obtain rfl := hm
  obtain rfl := sorted (.inl rfl) ha ha'
  obtain rfl := sorted (.inr rfl) hd hd'
  rfl

/-! ### The rating -/

/-- The parts of a policy that is read back are read back. -/
theorem good_policy {r : Runtime} {p : Policy} (h : (Policy.schema r).Good p) :
    Providers.schema.Good p.providers ∧ (Weights.schema r).Good p.weights := by
  obtain ⟨hg, -⟩ := good_checked.1 h
  simp only [good_optional, good_nested] at hg
  exact ⟨hg.2.2.1, hg.2.2.2.1⟩

/-- The lists of good providers are read back. -/
theorem good_lists {P : Providers} (h : Providers.schema.Good P) :
    addressList.Good P.allow ∧ addressList.Good P.deny := by
  have hg := (good_plain.1 h).1
  simp only [good_optional] at hg
  exact ⟨hg.2.1, hg.2.2.1⟩

/-- The list that the rating allows is read back too, whatever the mode. -/
theorem good_allowed {p : Policy} (h : Providers.schema.Good p.providers) :
    addressList.Good p.rating.1 := by
  change addressList.Good (if p.providers.mode = .allowlist then p.providers.allow else [])
  split_ifs
  · exact (good_lists h).1
  · exact good_addressList_nil

namespace NodeHelper

/-- The rating of a policy, in the helper's own type. -/
def Rating.of (p : Policy) : Rating where
  algorithm := "default"
  providerAllowlist := p.rating.1
  providerDenylist := p.providers.deny
  params := ⟨p.weights⟩

/-- It is read back. -/
theorem Rating.good_of {r : Runtime} {p : Policy} (hw : (Weights.schema r).Good p.weights) :
    (schema r).Good (.of p) := by
  refine good_plain.2 ⟨?_, rfl⟩
  have hp : (Params.schema r).Good ⟨p.weights⟩ := good_plain.2 ⟨by simp [hw], rfl⟩
  simp [of, hp]

/-- Lists in normal form are validated as they are. -/
theorem Rating.validated_eq {r : Runtime} {g : Rating} (ha : addressList.Good g.providerAllowlist)
    (hd : addressList.Good g.providerDenylist) : g.validated r = some ((schema r).dump g) := by
  have hp : Providers.schema.read (.obj [("allow", .arr (g.providerAllowlist.map .str)),
      ("deny", .arr (g.providerDenylist.map .str))]) =
      some ⟨.all, g.providerAllowlist, g.providerDenylist⟩ := by
    refine read_plain.2 ⟨by simp [closed], (.all, g.providerAllowlist, g.providerDenylist, ()), ?_, rfl⟩
    rw [read_optional, read_optional, read_optional]
    exact ⟨rfl, ha, hd, rfl⟩
  unfold validated
  rw [hp]
  rfl

/-- `POST /restart` as the gateway sends it. -/
def applyBody (r : Runtime) (p : Policy) (id : String) : Json :=
  .obj [("rating", p.ratingJson r), ("operation_id", .str id)]

/-- **The helper takes the rating as it was sent.** -/
theorem read_applyBody {r : Runtime} {p : Policy} (h : (Policy.schema r).Good p) {id : String}
    (hid : isOperationId id = true) :
    ((RestartRequest.schema r).read (applyBody r p id)).bind (fun q => q.rating) = some (.of p) ∧
      (Rating.of p).validated r = some (p.ratingJson r) := by
  obtain ⟨hP, hw⟩ := good_policy h
  constructor
  · have hg : (RestartRequest.schema r).Good ⟨some (.of p), some id⟩ := by
      refine good_plain.2 ⟨?_, rfl⟩
      simp [Rating.good_of hw, hid]
    change ((RestartRequest.schema r).read ((RestartRequest.schema r).dump ⟨some (.of p), some id⟩)).bind _ = _
    rw [hg]
    rfl
  · exact Rating.validated_eq (good_allowed hP) (good_lists hP).2

/-! ### The rating in force -/

namespace Supervisor

variable {ρ : Type} {default_ : ρ} {C : Supervisor ρ → Action ρ → Prop} {o o' : Supervisor ρ}

/-- While the node is started with a rating, the file has it. -/
theorem written_of_reach (h : Reach default_ C o) :
    ∀ r, o.phase = .starting (some r) ∨ o.phase = .committing (some r) → o.rating = some r := by
  induction h with
  | installed hi => cases hi <;> simp
  | @step o a o' _ _ hs ih =>
    cases a with
    | boot =>
      obtain ⟨-, hs⟩ := Option.ite_none_right_eq_some.1 hs
      obtain rfl := Option.some.inj hs
      intro r
      dsimp only
      split_ifs <;> simp
    | request r =>
      obtain ⟨-, hs⟩ := Option.ite_none_right_eq_some.1 hs
      cases r <;> obtain rfl := Option.some.inj hs <;> simp
    | write ok =>
      cases hph : o.phase <;>
        simp only [step, hph, Option.some.injEq, reduceCtorEq] at hs <;> subst hs <;> intro r <;>
        split_ifs <;> simp
    | node ready =>
      cases hph : o.phase <;> simp only [step, hph, Option.some.injEq, reduceCtorEq] at hs <;> subst hs
      case starting x =>
        intro r
        dsimp only
        split_ifs
        · simp only [false_or, Phase.committing.injEq]
          exact fun h => ih r (.inl (by rw [hph, h]))
        · simp
        · simp
      all_goals
        intro r
        split_ifs <;> simp [hph]
    | unlink =>
      cases hph : o.phase <;>
        simp only [step, hph, Option.some.injEq, reduceCtorEq] at hs <;> subst hs <;> simp
    | crash =>
      obtain rfl := Option.some.inj hs
      simp

/-- The rating is in force without the marker, and no apply is under way. -/
structure InForce (r : ρ) (o : Supervisor ρ) : Prop where
  marker : o.marker = false
  rating : o.rating = some r
  phase : o.phase ∈ [.down, .seeding, .idle, .starting none, .committing none]

/-- An apply that succeeds puts its rating in force. -/
theorem inForce_of_commit (h : Reach default_ C o) {r : ρ} (hp : o.phase = .committing (some r))
    (hs : o.step default_ .unlink = some o') : o'.InForce r := by
  have hr := written_of_reach h r (.inr hp)
  simp only [step, hp, Option.some.injEq] at hs
  subst hs
  exact ⟨rfl, hr, by simp⟩

/-- Nothing but another apply changes it: neither a restart, whether the node comes up or
not, nor a crash and a new start. -/
theorem InForce.step {r : ρ} (h : o.InForce r) {a : Action ρ} (ha : ∀ x, a ≠ .request (some x))
    (hs : o.step default_ a = some o') : o'.InForce r := by
  obtain ⟨hm, hr, hp⟩ := h
  simp only [List.mem_cons, List.not_mem_nil, or_false] at hp
  cases a with
  | boot =>
    obtain ⟨-, hs⟩ := Option.ite_none_right_eq_some.1 hs
    obtain rfl := Option.some.inj hs
    exact ⟨hm, hr, by simp [hm]⟩
  | request x =>
    cases x with
    | some x => exact absurd rfl (ha x)
    | none =>
      obtain ⟨-, hs⟩ := Option.ite_none_right_eq_some.1 hs
      obtain rfl := Option.some.inj hs
      exact ⟨hm, hr, by simp⟩
  | write ok =>
    rcases hp with hp | hp | hp | hp | hp <;>
      simp only [Supervisor.step, hp, hr, Option.isSome_some, if_true, Option.some.injEq,
        reduceCtorEq] at hs
    subst hs
    exact ⟨hm, rfl, by simp⟩
  | node ready =>
    rcases hp with hp | hp | hp | hp | hp <;>
      simp only [Supervisor.step, hp, Option.some.injEq, reduceCtorEq] at hs <;> subst hs
    · split_ifs
      · exact ⟨hm, hr, by simp [hp]⟩
      · exact ⟨hm, hr, by simp⟩
    · exact ⟨hm, hr, by cases ready <;> simp [hm]⟩
  | unlink =>
    rcases hp with hp | hp | hp | hp | hp <;>
      simp only [Supervisor.step, hp, Option.some.injEq, reduceCtorEq] at hs
    subst hs
    exact ⟨rfl, hr, by simp⟩
  | crash =>
    obtain rfl := Option.some.inj hs
    exact ⟨hm, hr, by simp⟩

/-- **The rating in force stays until another is applied**, on every run. -/
theorem InForce.runs {r : ρ} {l : List (Action ρ)} (h : o.InForce r) (hr : Runs default_ C o l o')
    (hl : ∀ x, .request (some x) ∉ l) : o'.InForce r := by
  induction hr with
  | nil => exact h
  | cons _ hs _ ih =>
    refine ih (h.step (fun x hx => hl x (hx ▸ .head _)) hs) fun x hx => hl x (.tail _ hx)

end Supervisor

/-- Where the helper is asked to apply the rating of the policy: it takes the rating as it
was sent, and from an apply that succeeds until the next one that is its rating. -/
def Applies (r : Runtime) (p : Policy) : Prop :=
  (∀ id, isOperationId id = true → ∃ q g, (RestartRequest.schema r).read (applyBody r p id) = some q ∧
    q.rating = some g ∧ g.validated r = some (p.ratingJson r)) ∧
  ∀ (default_ : Json) (o o' o'' : Supervisor Json) (l : List (Action Json)),
    Supervisor.Reach default_ (fun _ _ => True) o → o.phase = .committing (some (p.ratingJson r)) →
    o.step default_ .unlink = some o' → (∀ x, .request (some x) ∉ l) →
    Supervisor.Runs default_ (fun _ _ => True) o' l o'' → o''.rating = some (p.ratingJson r)

/-- **The rating of a policy is applied as it was sent.** -/
theorem applies {r : Runtime} {p : Policy} (h : (Policy.schema r).Good p) : Applies r p := by
  refine ⟨fun id hid => ?_, fun default_ o o' o'' l ho hp hs hl hr => ?_⟩
  · obtain ⟨hq, hv⟩ := read_applyBody h hid
    obtain ⟨q, hq, hg⟩ := Option.bind_eq_some_iff.1 hq
    exact ⟨q, .of p, hq, hg, hv⟩
  · exact ((Supervisor.inForce_of_commit ho hp hs).runs hr hl).rating

end NodeHelper

/-! ### The theorem -/

open NodeHelper in
/-- **Settings survive storage and transport.**  A policy that is accepted is read back as it
was; its rating, whatever the mode, is accepted by the helper and left as it is, and in force
from an apply that succeeds.  Who is permitted depends on the addresses that are listed and
not on how, and who is denied is not permitted. -/
theorem settingsSurvive (r : Runtime) :
    (∀ j p, Policy.validate r j = some p →
      Policy.validate r (p.dump r) = some p ∧
      (∃ g, (Rating.schema r).read (p.ratingJson r) = some g ∧
        g.validated r = some (p.ratingJson r)) ∧
      Applies r p) ∧
    (∀ x P, Providers.schema.read x = some P → ∀ a,
      (P.permits a = true ↔ isAddress (lower a) = true ∧ lower a ∉ (sentList x "deny").map lower ∧
        (P.mode = .all ∨ lower a ∈ (sentList x "allow").map lower)) ∧
      (lower a ∈ (sentList x "deny").map lower → P.permits a = false)) ∧
    ∀ x y P Q, Providers.schema.read x = some P → Providers.schema.read y = some Q →
      P.mode = Q.mode →
      (∀ key, key = "allow" ∨ key = "deny" →
        ∀ v, v ∈ (sentList x key).map lower ↔ v ∈ (sentList y key).map lower) →
      P = Q ∧ ∀ a, P.permits a = Q.permits a := by
  refine ⟨fun j p h => ?_, fun x P h a => ⟨permits_iff h a, fun hd => ?_⟩, fun x y P Q hx hy hm same => ?_⟩
  · have hg : (Policy.schema r).Good p := good_of_read _ h
    obtain ⟨hP, hw⟩ := good_policy hg
    have hr : (Rating.schema r).read (p.ratingJson r) = some (.of p) := Rating.good_of hw
    exact ⟨hg, ⟨_, hr, Rating.validated_eq (good_allowed hP) (good_lists hP).2⟩, applies hg⟩
  · by_contra hn
    exact ((permits_iff h a).1 (Bool.eq_true_of_not_eq_false hn)).2.1 hd
  · obtain rfl := providers_eq hx hy hm same
    exact ⟨rfl, fun _ => rfl⟩

/-- One is close to one. -/
theorem one_isClose : (decide ((1 : ℚ) - 1 / 10 ^ 9 ≤ 1) && decide ((1 : ℚ) ≤ 1 + 1 / 10 ^ 9)) = true := by
  decide +kernel

/-- A runtime that converts what has the right type, and adds exactly. -/
def Runtime.exact : Runtime where
  toBool
    | .bool b => some b
    | _ => none
  toInt
    | .num n => some n
    | _ => none
  toFloat
    | .float _ (.finite q) => some q
    | _ => none
  repr q := "0." ++ toString ((q * 10).floor % 10) ++ toString ((q * 100).floor % 10)
  sum := List.sum
  isClose q := decide (1 - 1 / 10 ^ 9 ≤ q) && decide (q ≤ 1 + 1 / 10 ^ 9)
  nextUp := id
  nextDown := id
  toBool_bool _ := rfl
  toInt_num _ := rfl
  toFloat_float _ _ := rfl
  isClose_one := one_isClose
  le_sum _ h v hv := List.single_le_sum (fun w hw => (h w hw).1) v hv
  sum_zero _ h := List.sum_eq_zero h
  nextUp_mem _ h0 h1 := ⟨h0, h1.le⟩
  nextDown_mem _ h0 h1 := ⟨h0.le, h1⟩

/-- A policy as an operator may send it: a model in upper case, an allowlist with an address
twice, and most fields left out. -/
def sentPolicy : Json :=
  .obj [("models", .arr [.obj [("id", .str "0xABCDEF00000000000000000000000000000000000000000000000000000000AB"),
      ("alias", .str "Llama-3"), ("warm_until", .num 1700000000)]]),
    ("providers", .obj [("mode", .str "allowlist"),
      ("allow", .arr [.str "0xBB00000000000000000000000000000000000000",
        .str "0xaa00000000000000000000000000000000000000",
        .str "0xbb00000000000000000000000000000000000000"])]),
    ("paused", .bool true)]

/-- The policy above is accepted and survives. -/
theorem settingsSurvive_sent : ∃ p, Policy.validate .exact sentPolicy = some p ∧
    Policy.validate .exact (p.dump .exact) = some p ∧ NodeHelper.Applies .exact p := by
  have accepted : (Policy.validate .exact sentPolicy).isSome = true := by decide +kernel
  obtain ⟨p, hp⟩ := Option.isSome_iff_exists.1 accepted
  obtain ⟨hd, -, ha⟩ := (settingsSurvive .exact).1 sentPolicy p hp
  exact ⟨p, hp, hd, ha⟩

end MorpheusGateway
