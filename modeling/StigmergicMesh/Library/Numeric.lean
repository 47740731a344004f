import Mathlib.Analysis.SpecialFunctions.Pow.Real

/-!
# Transcendental functions

The exponential and the power function of a numeric library, over a type of numbers `K`, and the
real ones.
-/

namespace StigmergicMesh

class Transcendental (K : Type*) where
  exp : K → K
  pow : K → K → K

noncomputable instance : Transcendental ℝ := ⟨Real.exp, Real.rpow⟩

namespace Transcendental

@[simp] theorem exp_real (x : ℝ) : exp x = Real.exp x := rfl

@[simp] theorem pow_real (x y : ℝ) : pow x y = x ^ y := rfl

/-- Of a base in `(0, 1)` only the zeroth power among the nonnegative ones is one. -/
theorem pow_eq_one_iff {x y : ℝ} (h₀ : 0 < x) (h₁ : x ≤ 1) (hy : 0 ≤ y) :
    pow x y = 1 ↔ x = 1 ∨ y = 0 := by
  constructor
  · intro h
    by_contra hne
    rw [not_or] at hne
    have hlt : x ^ y < 1 :=
      Real.rpow_lt_one h₀.le (lt_of_le_of_ne h₁ hne.1) (lt_of_le_of_ne hy (Ne.symm hne.2))
    exact absurd h hlt.ne
  · rintro (rfl | rfl)
    · simp
    · simp

end Transcendental

end StigmergicMesh
