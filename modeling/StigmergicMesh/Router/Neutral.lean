import StigmergicMesh.Field.Decay
import StigmergicMesh.Router.Scores

/-!
# Evaporation forgets preferences

Where all four traces decay, evaporation scales the numerator and the denominator of a score
alike, apart from `_EPS`. The score is then above or below one as before, never further away from
it, and as near as the product of the factors says.
-/

namespace StigmergicMesh

variable {K : Type*} [Field K] [LinearOrder K]

/-! ## The distance of a score from one -/

namespace Router

/-- By how much the rewards of a row exceed its costs. -/
def margin (w : Weights K) (r : Row K) : K :=
  w.alpha * r.V + w.delta * r.C - w.beta * r.L - w.gamma * r.S

/-- What the costs of a row add to `_EPS`. -/
def cost (w : Weights K) (r : Row K) : K := w.beta * r.L + w.gamma * r.S

section Margin

variable {w : Weights K} {r : Row K} {q : K}

omit [LinearOrder K]

theorem margin_scale (w : Weights K) (r : Row K) (q : K) :
    margin w (r.scale ⟨true, true⟩ q) = margin w r * q := by
  simp [margin, Row.scale]
  ring

theorem scoreDenominator_scale (w : Weights K) (flags : Row.DecayFlags) (r : Row K) (q : K) :
    scoreDenominator w (r.scale flags q) = cost w r * q + eps := by
  simp [scoreDenominator, cost]
  ring

variable [LinearOrder K] [IsStrictOrderedRing K]

theorem cost_nonneg (hw : w.Nonneg) (hr : r.InRange) : 0 ≤ cost w r :=
  add_nonneg (mul_nonneg hw.beta hr.L_nonneg) (mul_nonneg hw.gamma hr.S_nonneg)

theorem cost_mul_add_eps_pos (hw : w.Nonneg) (hr : r.InRange) (h₀ : 0 ≤ q) :
    0 < cost w r * q + eps :=
  add_pos_of_nonneg_of_pos (mul_nonneg (cost_nonneg hw hr) h₀) eps_pos

theorem score_sub_one (hw : w.Nonneg) (hr : r.InRange) :
    score w r - 1 = margin w r / (cost w r + eps) := by
  have hD : 0 < cost w r + eps := add_pos_of_nonneg_of_pos (cost_nonneg hw hr) eps_pos
  have hden : scoreDenominator w r = cost w r + eps := rfl
  rw [score, hden, div_sub_one hD.ne', scoreNumerator, cost, margin]
  congr 1
  ring

/-- After scaling by `q`. -/
theorem score_scale_sub_one (hw : w.Nonneg) (hr : r.InRange) (h₀ : 0 < q) (h₁ : q ≤ 1) :
    score w (r.scale ⟨true, true⟩ q) - 1 = margin w r * q / (cost w r * q + eps) := by
  have hscaled := hr.scale ⟨true, true⟩ h₀.le h₁
  rw [score_sub_one hw hscaled, margin_scale]
  congr 1
  exact scoreDenominator_scale w _ r q

/-- The side of one is the sign of the margin. -/
theorem one_le_score_scale (hw : w.Nonneg) (hr : r.InRange) (h₀ : 0 < q) (h₁ : q ≤ 1) :
    (1 ≤ score w (r.scale ⟨true, true⟩ q) ↔ 0 ≤ margin w r) ∧
      (score w (r.scale ⟨true, true⟩ q) ≤ 1 ↔ margin w r ≤ 0) := by
  have hD := cost_mul_add_eps_pos hw hr h₀.le
  have hsub := score_scale_sub_one hw hr h₀ h₁
  constructor
  · rw [← sub_nonneg, hsub, le_div_iff₀ hD, zero_mul, mul_nonneg_iff_of_pos_right h₀]
  · rw [← sub_nonpos, hsub, div_le_iff₀ hD, zero_mul, ← neg_nonneg, ← neg_mul,
      mul_nonneg_iff_of_pos_right h₀, neg_nonneg]

theorem abs_score_scale_sub_one (hw : w.Nonneg) (hr : r.InRange) (h₀ : 0 < q) (h₁ : q ≤ 1) :
    |score w (r.scale ⟨true, true⟩ q) - 1| = |margin w r| * (q / (cost w r * q + eps)) := by
  have hD := cost_mul_add_eps_pos hw hr h₀.le
  rw [score_scale_sub_one hw hr h₀ h₁, abs_div, abs_mul, abs_of_pos h₀, abs_of_pos hD,
    mul_div_assoc]

/-- The distance falls with the factor. -/
theorem abs_score_scale_sub_one_mono (hw : w.Nonneg) (hr : r.InRange) {p : K} (h₀ : 0 < p)
    (hpq : p ≤ q) (h₁ : q ≤ 1) :
    |score w (r.scale ⟨true, true⟩ p) - 1| ≤ |score w (r.scale ⟨true, true⟩ q) - 1| := by
  have hp := cost_mul_add_eps_pos hw hr h₀.le
  have hq := cost_mul_add_eps_pos hw hr (h₀.le.trans hpq)
  rw [abs_score_scale_sub_one hw hr h₀ (hpq.trans h₁),
    abs_score_scale_sub_one hw hr (h₀.trans_le hpq) h₁]
  refine mul_le_mul_of_nonneg_left ?_ (abs_nonneg _)
  rw [div_le_div_iff₀ hp hq]
  have hgap : p * eps ≤ q * eps := mul_le_mul_of_nonneg_right hpq eps_pos.le
  linarith

theorem abs_score_scale_sub_one_le (hw : w.Nonneg) (hr : r.InRange) (h₀ : 0 < q) (h₁ : q ≤ 1) :
    |score w (r.scale ⟨true, true⟩ q) - 1| ≤ q * |margin w r| / eps := by
  have hc := mul_nonneg (cost_nonneg hw hr) h₀.le
  rw [abs_score_scale_sub_one hw hr h₀ h₁, mul_comm q, mul_div_assoc]
  refine mul_le_mul_of_nonneg_left ?_ (abs_nonneg _)
  exact div_le_div_of_nonneg_left h₀.le eps_pos (le_add_of_nonneg_left hc)

end Margin

/-! ## Histories of ticks -/

section Histories

variable (router : Router K) (weightsOverride : Option (Dict String K)) (f : InMemoryField K)

theorem computeScores_evaporations (rates : List K) {i : ℕ} {start : Row K}
    (hstart : f.getStateVector[i]? = some start) :
    (router.computeScores (f.run (InMemoryField.evaporations rates)).getStateVector
      weightsOverride)[i]? =
        some (score (router.weightsFor weightsOverride) (start.scale f.decay
          (InMemoryField.decayFactor (InMemoryField.evaporations rates)))) := by
  rw [InMemoryField.getStateVector] at hstart
  rw [computeScores, InMemoryField.getStateVector, InMemoryField.run_evaporations_state]
  simp [hstart]

/-- Where all traces of rows in range decay, the score of a node stays on its side of one, never
gets further away from it from tick to tick, and after the ticks so far its distance is at most
the product of their factors times the margin of the first row over `_EPS`. -/
theorem evaporation_neutralises [IsStrictOrderedRing K]
    (hw : (router.weightsFor weightsOverride).Nonneg)
    (hrange : ∀ r ∈ f.getStateVector, r.InRange) (hdecay : f.decay = ⟨true, true⟩)
    (rates : List K) (hrates : ∀ rate ∈ rates, 0 ≤ rate ∧ rate < 1) (i : ℕ) (start : Row K)
    (hstart : f.getStateVector[i]? = some start) :
    ∃ s : ℕ → K,
      (∀ k, (router.computeScores
        (f.run (InMemoryField.evaporations (rates.take k))).getStateVector
          weightsOverride)[i]? = some (s k)) ∧
      (∀ k, (1 ≤ s k ↔ 1 ≤ s 0) ∧ (s k ≤ 1 ↔ s 0 ≤ 1)) ∧
      (∀ k, |s (k + 1) - 1| ≤ |s k - 1|) ∧
      ∀ k, |s k - 1| ≤ ((rates.take k).map fun rate => 1 - rate).prod *
        |margin (router.weightsFor weightsOverride) start| / eps := by
  have hr := hrange start (List.mem_of_getElem? hstart)
  let q : ℕ → K := fun k =>
    InMemoryField.decayFactor (InMemoryField.evaporations (rates.take k))
  have hq : ∀ k, 0 < q k ∧ q k ≤ 1 := fun k => InMemoryField.decayFactor_mem _
  have hstep : ∀ k, q (k + 1) ≤ q k := InMemoryField.decayFactor_take_succ_le rates
  refine ⟨fun k => score (router.weightsFor weightsOverride) (start.scale ⟨true, true⟩ (q k)),
    fun k => ?_, fun k => ?_, fun k => ?_, fun k => ?_⟩
  · rw [computeScores_evaporations router weightsOverride f (rates.take k) hstart, hdecay]
  · obtain ⟨habove, hbelow⟩ := one_le_score_scale hw hr (hq k).1 (hq k).2
    obtain ⟨habove₀, hbelow₀⟩ := one_le_score_scale hw hr (hq 0).1 (hq 0).2
    exact ⟨habove.trans habove₀.symm, hbelow.trans hbelow₀.symm⟩
  · exact abs_score_scale_sub_one_mono hw hr (hq (k + 1)).1 (hstep k) (hq k).2
  · rw [← InMemoryField.decayFactor_evaporations fun rate h => hrates rate (List.mem_of_mem_take h)]
    exact abs_score_scale_sub_one_le hw hr (hq k).1 (hq k).2

/-- A tick of one half at the baseline row, with the default weights. -/
theorem evaporation_neutralises_baseline :
    ∃ f : InMemoryField ℚ, InMemoryField.new ["a"] none (1 / 10) ⟨true, true⟩ = .ok f ∧
      ∃ s : ℕ → ℚ, (∀ k, ((Router.new Dict.empty none none none : Router ℚ).computeScores
          (f.run (InMemoryField.evaporations ([1 / 2].take k))).getStateVector none)[0]? =
            some (s k)) ∧
        |s 1 - 1| ≤ |s 0 - 1| := by
  refine ⟨_, rfl, ?_⟩
  obtain ⟨s, hs, -, hstep, -⟩ := evaporation_neutralises
    (Router.new Dict.empty none none none : Router ℚ) none
    ⟨["a"], Dict.enumerate ["a"], [Row.defaultState], 1 / 10, ⟨true, true⟩⟩
    (by constructor <;> norm_num [Router.new, weightsFor, Dict.getD, Dict.get?, Dict.empty])
    (by simpa [InMemoryField.getStateVector] using Row.defaultState_inRange) rfl [1 / 2]
    (by norm_num) 0 Row.defaultState rfl
  exact ⟨s, hs, hstep 0⟩

end Histories

end Router

end StigmergicMesh
