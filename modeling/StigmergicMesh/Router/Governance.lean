import StigmergicMesh.Library.Dict
import Mathlib.Algebra.Order.Field.Basic
import Mathlib.Data.Rat.Cast.OfScientific
import Mathlib.Tactic.NormNum

/-!
# Tenant tiers

`TenantPolicyEngine`: the weights of a request biased by the tier of its tenant. The result is a
copy with the same keys, passed to the router as the overrides of one computation.
-/

namespace StigmergicMesh

/-- The tiers that have an entry in `_tier_multipliers`. -/
inductive Tier where
  | free
  | pro
  | enterprise
  deriving DecidableEq, Repr

namespace TenantPolicyEngine

/-- `_normalize_tier` of a tenant's `tier` attribute, which may be missing. -/
def normalizeTier : Option String → Tier
  | some "free" => .free
  | some "enterprise" => .enterprise
  | _ => .pro

/-- `_MATRIX_WEIGHT_KEYS`. -/
def matrixWeightKeys : List String := ["alpha", "beta", "gamma", "delta"]

variable {K : Type*} [Field K]

/-- `_tier_multipliers`. -/
def tierMultipliers : Tier → Dict String K
  | .enterprise => ⟨[("beta", 1.5), ("alpha", 1.2)], by simp⟩
  | .free => ⟨[("delta", 2.0), ("gamma", 2.0)], by simp⟩
  | .pro => Dict.empty

/-- `biased[key] = biased[key] * multipliers.get(key, 1.0)`, if the key is present. -/
def biasKey (multipliers biased : Dict String K) (key : String) : Dict String K :=
  match biased.get? key with
  | none => biased
  | some x => biased.set key (x * multipliers.getD key 1)

/-- `apply_governance_bias`. -/
def applyGovernanceBias (tier : Option String) (matrixWeights : Dict String K) : Dict String K :=
  matrixWeightKeys.foldl (biasKey (tierMultipliers (normalizeTier tier))) matrixWeights

theorem get?_biasKey (multipliers biased : Dict String K) (key a : String) :
    (biasKey multipliers biased key).get? a =
      if a = key then (biased.get? a).map (· * multipliers.getD a 1) else biased.get? a := by
  rw [biasKey]
  cases h : biased.get? key with
  | none =>
    by_cases ha : a = key
    · simp [ha, h]
    · simp [ha]
  | some x =>
    rw [Dict.get?_set]
    by_cases ha : a = key
    · simp [ha, h]
    · simp [ha]

/-- A matrix weight is multiplied once; every other entry stays. -/
theorem get?_applyGovernanceBias (tier : Option String) (matrixWeights : Dict String K)
    (a : String) :
    (applyGovernanceBias tier matrixWeights).get? a =
      if a ∈ matrixWeightKeys then
        (matrixWeights.get? a).map (· * (tierMultipliers (normalizeTier tier)).getD a 1)
      else matrixWeights.get? a := by
  have hkeys : ∀ keys : List String, keys.Nodup → ∀ d : Dict String K,
      (keys.foldl (biasKey (tierMultipliers (normalizeTier tier))) d).get? a =
        if a ∈ keys then (d.get? a).map (· * (tierMultipliers (normalizeTier tier)).getD a 1)
        else d.get? a := by
    intro keys
    induction keys with
    | nil => simp
    | cons key keys ih =>
      intro hnodup d
      obtain ⟨hkey, hkeys⟩ := List.nodup_cons.mp hnodup
      rw [List.foldl_cons, ih hkeys, get?_biasKey]
      by_cases ha : a = key
      · subst ha
        simp [hkey]
      · simp [ha]
  exact hkeys matrixWeightKeys (by decide) matrixWeights

variable [LinearOrder K] [IsStrictOrderedRing K]

theorem tierMultipliers_nonneg (tier : Tier) :
    ∀ x ∈ (tierMultipliers tier : Dict String K).values, 0 ≤ x := by
  cases tier with
  | free => norm_num [tierMultipliers, Dict.values]
  | pro => simp [tierMultipliers, Dict.values, Dict.empty]
  | enterprise => norm_num [tierMultipliers, Dict.values]

theorem biasKey_nonneg {multipliers biased : Dict String K}
    (hm : ∀ x ∈ multipliers.values, 0 ≤ x) (hb : ∀ x ∈ biased.values, 0 ≤ x) (key : String) :
    ∀ x ∈ (biasKey multipliers biased key).values, 0 ≤ x := by
  intro x hx
  rw [biasKey] at hx
  split at hx
  · exact hb x hx
  · rename_i y hy
    rcases Dict.mem_values_set hx with rfl | hx
    · refine mul_nonneg (hb y (Dict.mem_values_of_get? hy)) ?_
      rw [Dict.getD]
      cases h : multipliers.get? key with
      | none => exact zero_le_one
      | some z => exact hm z (Dict.mem_values_of_get? h)
    · exact hb x hx

/-- Nonnegative weights stay nonnegative in every tier. -/
theorem applyGovernanceBias_nonneg (tier : Option String) {matrixWeights : Dict String K}
    (hw : ∀ x ∈ matrixWeights.values, 0 ≤ x) :
    ∀ x ∈ (applyGovernanceBias tier matrixWeights).values, 0 ≤ x := by
  have hkeys : ∀ (keys : List String) (d : Dict String K), (∀ x ∈ d.values, 0 ≤ x) →
      ∀ x ∈ (keys.foldl (biasKey (tierMultipliers (normalizeTier tier))) d).values, 0 ≤ x := by
    intro keys
    induction keys with
    | nil => exact fun d hd => hd
    | cons key keys ih =>
      exact fun d hd => ih _ (biasKey_nonneg (tierMultipliers_nonneg _) hd key)
  exact hkeys matrixWeightKeys matrixWeights hw

end TenantPolicyEngine

end StigmergicMesh
