import StigmergicMesh.Library.Dict
import StigmergicMesh.Library.Json
import Mathlib.Algebra.Order.Field.Basic
import Mathlib.Data.Rat.Cast.OfScientific
import Mathlib.Tactic.Linarith
import Mathlib.Tactic.Ring
import Mathlib.Tactic.NormNum

/-!
# One node's pheromone row

The four traces `[V, L, S, C]` of a node and what a deposit, an evaporation and a snapshot do to
them, column by column. Both backends of the memory field are built from these row updates.

Arithmetic is exact, over an arbitrary ordered field `K`.
-/

namespace StigmergicMesh

/-- A row of the state matrix: success, latency, saturation, capability fit. -/
structure Row (K : Type*) where
  V : K
  L : K
  S : K
  C : K
  deriving DecidableEq, Repr

/-- The arguments of `deposit_trace` after `node_id`. `tokens` is accepted and not read, so it can
be whatever a worker has said. -/
structure Trace (K : Type*) where
  latencySec : K
  tokens : Json
  success : Bool
  activeLoad : Int
  capabilityMatch : K

/-- A `traces` mapping of a snapshot: each trace may be missing. -/
structure Traces (α : Type*) where
  V : Option α
  L : Option α
  S : Option α
  C : Option α

namespace Row

variable {K : Type*} [Field K]

/-- `_DEFAULT_STATE`. -/
def defaultState : Row K := ⟨1, 0.1, 0, 1⟩

/-- The fields `decay_success` and `decay_capability` of a memory field. -/
structure DecayFlags where
  decaySuccess : Bool
  decayCapability : Bool
  deriving DecidableEq, Repr

/-- `_state[:, k] *= factor`, with V and C behind their flags. -/
def scale (flags : DecayFlags) (factor : K) (r : Row K) : Row K where
  V := if flags.decaySuccess then r.V * factor else r.V
  L := r.L * factor
  S := r.S * factor
  C := if flags.decayCapability then r.C * factor else r.C

/-- `1.0 if success else 0.0`. -/
def successVal (success : Bool) : K := if success then 1 else 0

/-- `alpha * x + (1 - alpha) * y` with `alpha = 0.5`. -/
def ewma (x y : K) : K := 0.5 * x + (1 - 0.5) * y

/-- A row as a mapping with no trace missing. -/
def traces (r : Row K) : Traces K := ⟨some r.V, some r.L, some r.S, some r.C⟩

/-- A snapshot's traces written over the row, missing ones kept. -/
def overlay (t : Traces K) (r : Row K) : Row K where
  V := t.V.getD r.V
  L := t.L.getD r.L
  S := t.S.getD r.S
  C := t.C.getD r.C

@[simp] theorem scale_L (flags : DecayFlags) (x : K) (r : Row K) :
    (r.scale flags x).L = r.L * x := rfl

@[simp] theorem scale_S (flags : DecayFlags) (x : K) (r : Row K) :
    (r.scale flags x).S = r.S * x := rfl

theorem scale_one (flags : DecayFlags) (r : Row K) : r.scale flags 1 = r := by
  simp [scale]

/-- Two scalings are one scaling by the product. -/
theorem scale_scale (flags : DecayFlags) (x y : K) (r : Row K) :
    (r.scale flags x).scale flags y = r.scale flags (x * y) := by
  rcases flags with ⟨_ | _, _ | _⟩ <;> simp [scale, mul_assoc]

/-- The traces that evaporation scales are zero. -/
def DecayingZero (flags : DecayFlags) (r : Row K) : Prop :=
  (flags.decaySuccess = true → r.V = 0) ∧ r.L = 0 ∧ r.S = 0 ∧
    (flags.decayCapability = true → r.C = 0)

/-- Different factors scale a row to the same row only if there is nothing to scale. -/
theorem scale_eq_scale_iff (flags : DecayFlags) (x y : K) (r : Row K) :
    r.scale flags x = r.scale flags y ↔ x = y ∨ r.DecayingZero flags := by
  by_cases hxy : x = y
  · simp [hxy]
  · rcases flags with ⟨_ | _, _ | _⟩ <;> simp [scale, DecayingZero, hxy]

variable [LinearOrder K]

/-- `max(0.0, min(1.0, x))`. -/
def clampUnit (x : K) : K := max 0 (min 1 x)

/-- The row after `deposit_trace`: V, L and C by EWMA, S set from the load. -/
def deposit (saturationScale : K) (t : Trace K) (r : Row K) : Row K where
  V := ewma (successVal t.success) r.V
  L := ewma t.latencySec r.L
  S := (t.activeLoad : K) * saturationScale
  C := ewma (clampUnit t.capabilityMatch) r.C

/-- The row after `apply_evaporation(decay_rate)`. -/
def evaporate (flags : DecayFlags) (decayRate : K) (r : Row K) : Row K :=
  r.scale flags (1 - decayRate)

/-! ## Ranges -/

/-- The range the traces are meant to live in. -/
structure InRange (r : Row K) : Prop where
  V_nonneg : 0 ≤ r.V
  V_le_one : r.V ≤ 1
  L_nonneg : 0 ≤ r.L
  S_nonneg : 0 ≤ r.S
  C_nonneg : 0 ≤ r.C
  C_le_one : r.C ≤ 1

theorem clampUnit_nonneg (x : K) : 0 ≤ clampUnit x := le_max_left _ _

theorem clampUnit_of_mem {x : K} (h₀ : 0 ≤ x) (h₁ : x ≤ 1) : clampUnit x = x := by
  simp [clampUnit, h₀, h₁]

variable [IsStrictOrderedRing K]

theorem defaultState_inRange : (defaultState : Row K).InRange where
  V_nonneg := by simp [defaultState]
  V_le_one := by simp [defaultState]
  L_nonneg := by norm_num [defaultState]
  S_nonneg := by simp [defaultState]
  C_nonneg := by simp [defaultState]
  C_le_one := by simp [defaultState]

theorem clampUnit_le_one (x : K) : clampUnit x ≤ 1 :=
  max_le zero_le_one (min_le_left _ _)

/-- The average of two values lies between any bounds on both. -/
theorem ewma_mem {x y a b : K} (hax : a ≤ x) (hay : a ≤ y) (hxb : x ≤ b) (hyb : y ≤ b) :
    a ≤ ewma x y ∧ ewma x y ≤ b := by
  constructor <;> · unfold ewma; linarith

theorem successVal_mem (s : Bool) : (0 : K) ≤ successVal s ∧ successVal s ≤ (1 : K) := by
  cases s <;> simp [successVal]

/-- A deposit of nonnegative observations keeps the ranges. -/
theorem InRange.deposit {r : Row K} (h : r.InRange) {scale : K} (hs : 0 ≤ scale) {t : Trace K}
    (hl : 0 ≤ t.latencySec) (ha : 0 ≤ t.activeLoad) : (r.deposit scale t).InRange := by
  obtain ⟨hv₀, hv₁⟩ := successVal_mem (K := K) t.success
  have hV := ewma_mem hv₀ h.V_nonneg hv₁ h.V_le_one
  have hC := ewma_mem (clampUnit_nonneg t.capabilityMatch) h.C_nonneg
    (clampUnit_le_one t.capabilityMatch) h.C_le_one
  have hL := ewma_mem hl h.L_nonneg (le_max_left _ r.L) (le_max_right t.latencySec _)
  exact ⟨hV.1, hV.2, hL.1, mul_nonneg (by exact_mod_cast ha) hs, hC.1, hC.2⟩

/-- Scaling by a factor of the unit interval keeps the ranges. -/
theorem InRange.scale {r : Row K} (h : r.InRange) (flags : DecayFlags) {x : K} (h₀ : 0 ≤ x)
    (h₁ : x ≤ 1) : (r.scale flags x).InRange := by
  have unit : ∀ {y : K}, 0 ≤ y → y ≤ 1 → 0 ≤ y * x ∧ y * x ≤ 1 := fun hy₀ hy₁ =>
    ⟨mul_nonneg hy₀ h₀, mul_le_one₀ hy₁ h₀ h₁⟩
  refine ⟨?_, ?_, mul_nonneg h.L_nonneg h₀, mul_nonneg h.S_nonneg h₀, ?_, ?_⟩
  · simp only [Row.scale]; split <;> [exact (unit h.V_nonneg h.V_le_one).1; exact h.V_nonneg]
  · simp only [Row.scale]; split <;> [exact (unit h.V_nonneg h.V_le_one).2; exact h.V_le_one]
  · simp only [Row.scale]; split <;> [exact (unit h.C_nonneg h.C_le_one).1; exact h.C_nonneg]
  · simp only [Row.scale]; split <;> [exact (unit h.C_nonneg h.C_le_one).2; exact h.C_le_one]

theorem InRange.evaporate {r : Row K} (h : r.InRange) (flags : DecayFlags) {rate : K}
    (h₀ : 0 ≤ rate) (h₁ : rate < 1) : (r.evaporate flags rate).InRange :=
  h.scale flags (by linarith) (by linarith)

/-! ## Deposits on a scaled row -/

theorem ewma_right_inj {x y z : K} : ewma x y = ewma x z ↔ y = z := by
  constructor
  · intro h; unfold ewma at h; linarith
  · rintro rfl; rfl

/-- Scaling before a deposit goes unnoticed exactly when it changes no averaged trace. -/
theorem deposit_scale_eq_iff (flags : DecayFlags) (x scale : K) (t : Trace K) (r : Row K) :
    (r.scale flags x).deposit scale t = r.deposit scale t ↔
      x = 1 ∨ ((flags.decaySuccess = true → r.V = 0) ∧ r.L = 0 ∧
        (flags.decayCapability = true → r.C = 0)) := by
  by_cases hx : x = 1
  · simp [hx, scale_one]
  · simp only [deposit, Row.mk.injEq, ewma_right_inj, hx, false_or, true_and]
    rcases flags with ⟨_ | _, _ | _⟩ <;> simp [Row.scale, hx, mul_right_eq_self₀]

end Row

end StigmergicMesh
