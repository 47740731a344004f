import StigmergicMesh.Router.WellDefined

/-!
# Temperature and sharpness

Dividing the scores by a lower temperature widens every gap between them. The best node then
stands further above the others and the worst further below, so the largest probability grows and
the smallest shrinks; which of two nodes is ahead depends on the scores alone.
-/

namespace StigmergicMesh.Router

open Softmax

variable {scores : List ℝ} {T T₁ T₂ : ℝ}

/-- A node's share of the partition sum. -/
noncomputable def weightAt (temperature : ℝ) (scores : List ℝ) (s : ℝ) : ℝ :=
  Real.exp (s / temperature) / Softmax.partition (scores.map (· / temperature))

theorem boltzmann_eq_map_weightAt (T : ℝ) (scores : List ℝ) :
    boltzmann T scores = scores.map (weightAt T scores) := by
  refine List.map_congr_left fun s _ => ?_
  rw [weightAt, Softmax.partition, List.map_map]
  rfl

theorem weightAt_le_iff (hT : 0 < T) (hne : scores ≠ []) {s t : ℝ} :
    weightAt T scores s ≤ weightAt T scores t ↔ s ≤ t := by
  have hpos : 0 < Softmax.partition (scores.map (· / T)) := partition_pos (by simpa using hne)
  rw [weightAt, weightAt, div_le_div_iff_of_pos_right hpos, Real.exp_le_exp,
    div_le_div_iff_of_pos_right hT]

/-! ## The extreme entries -/

theorem max?_boltzmann (hT : 0 < T) {top : ℝ} (h : scores.max? = some top) :
    (boltzmann T scores).max? = some (weightAt T scores top) := by
  obtain ⟨hmem, hle⟩ := List.max?_eq_some_iff.mp h
  rw [boltzmann_eq_map_weightAt, List.max?_eq_some_iff]
  refine ⟨List.mem_map_of_mem hmem, fun p hp => ?_⟩
  obtain ⟨s, hs, rfl⟩ := List.mem_map.mp hp
  exact (weightAt_le_iff hT (List.ne_nil_of_mem hmem)).mpr (hle s hs)

theorem min?_boltzmann (hT : 0 < T) {low : ℝ} (h : scores.min? = some low) :
    (boltzmann T scores).min? = some (weightAt T scores low) := by
  obtain ⟨hmem, hle⟩ := List.min?_eq_some_iff.mp h
  rw [boltzmann_eq_map_weightAt, List.min?_eq_some_iff]
  refine ⟨List.mem_map_of_mem hmem, fun p hp => ?_⟩
  obtain ⟨s, hs, rfl⟩ := List.mem_map.mp hp
  exact (weightAt_le_iff hT (List.ne_nil_of_mem hmem)).mpr (hle s hs)

/-- Scores that are not all equal have one below the largest. -/
theorem exists_lt_max {top : ℝ} (h : scores.max? = some top)
    (hdiff : ¬∀ s ∈ scores, ∀ t ∈ scores, s = t) : ∃ s ∈ scores, s < top := by
  obtain ⟨-, hle⟩ := List.max?_eq_some_iff.mp h
  by_contra hnone
  push Not at hnone
  exact hdiff fun s hs t ht =>
    (le_antisymm (hle s hs) (hnone s hs)).trans (le_antisymm (hle t ht) (hnone t ht)).symm

theorem exists_min_lt {low : ℝ} (h : scores.min? = some low)
    (hdiff : ¬∀ s ∈ scores, ∀ t ∈ scores, s = t) : ∃ s ∈ scores, low < s := by
  obtain ⟨-, hle⟩ := List.min?_eq_some_iff.mp h
  by_contra hnone
  push Not at hnone
  exact hdiff fun s hs t ht =>
    (le_antisymm (hnone s hs) (hle s hs)).trans (le_antisymm (hnone t ht) (hle t ht)).symm

/-! ## Two temperatures -/

section TwoTemperatures

variable (h₁ : 0 < T₁) (h₁₂ : T₁ < T₂)

include h₁ h₁₂

/-- A lower temperature widens a gap. -/
theorem gap_le {s t : ℝ} (h : s ≤ t) : t / T₂ - s / T₂ ≤ t / T₁ - s / T₁ := by
  rw [← sub_div, ← sub_div]
  exact div_le_div_of_nonneg_left (sub_nonneg.mpr h) h₁ h₁₂.le

theorem gap_lt {s t : ℝ} (h : s < t) : t / T₂ - s / T₂ < t / T₁ - s / T₁ := by
  rw [← sub_div, ← sub_div]
  exact div_lt_div_of_pos_left (sub_pos.mpr h) h₁ h₁₂

theorem weightAt_max_le {top : ℝ} (h : scores.max? = some top) :
    weightAt T₂ scores top ≤ weightAt T₁ scores top := by
  obtain ⟨hmem, hle⟩ := List.max?_eq_some_iff.mp h
  refine weight_le_of_gaps_le (f := (· / T₁)) (g := (· / T₂)) hmem fun s hs => ?_
  have hgap := gap_le h₁ h₁₂ (hle s hs)
  linarith

theorem weightAt_max_lt {top : ℝ} (h : scores.max? = some top) (hlt : ∃ s ∈ scores, s < top) :
    weightAt T₂ scores top < weightAt T₁ scores top := by
  obtain ⟨hmem, hle⟩ := List.max?_eq_some_iff.mp h
  obtain ⟨t, ht, hlow⟩ := hlt
  refine weight_lt_of_gaps_le (f := (· / T₁)) (g := (· / T₂)) hmem (fun s hs => ?_) ⟨t, ht, ?_⟩
  · have hgap := gap_le h₁ h₁₂ (hle s hs)
    linarith
  · have hgap := gap_lt h₁ h₁₂ hlow
    linarith

theorem weightAt_min_le {low : ℝ} (h : scores.min? = some low) :
    weightAt T₁ scores low ≤ weightAt T₂ scores low := by
  obtain ⟨hmem, hle⟩ := List.min?_eq_some_iff.mp h
  exact weight_le_of_gaps_le (f := (· / T₂)) (g := (· / T₁)) hmem
    fun s hs => gap_le h₁ h₁₂ (hle s hs)

theorem weightAt_min_lt {low : ℝ} (h : scores.min? = some low) (hlt : ∃ s ∈ scores, low < s) :
    weightAt T₁ scores low < weightAt T₂ scores low := by
  obtain ⟨hmem, hle⟩ := List.min?_eq_some_iff.mp h
  obtain ⟨t, ht, htop⟩ := hlt
  exact weight_lt_of_gaps_le (f := (· / T₂)) (g := (· / T₁)) hmem
    (fun s hs => gap_le h₁ h₁₂ (hle s hs)) ⟨t, ht, gap_lt h₁ h₁₂ htop⟩

end TwoTemperatures

/-! ## Sharpness -/

/-- At the lower of two temperatures the largest probability is at least, and the smallest at most,
what it is at the higher one, strictly unless all scores are the same; the order of the nodes'
probabilities does not change. -/
theorem lower_temperature_sharpens (router₁ router₂ : Router ℝ) (scores : List ℝ)
    (hne : scores ≠ []) (h₁ : 0 < router₁.temperature)
    (h₁₂ : router₁.temperature < router₂.temperature) :
    ∃ ps₁ ps₂, router₁.computeProbabilities scores = .ok ps₁ ∧
      router₂.computeProbabilities scores = .ok ps₂ ∧
      ps₁.length = scores.length ∧ ps₂.length = scores.length ∧
      (∃ max₁ max₂ min₁ min₂, ps₁.max? = some max₁ ∧ ps₂.max? = some max₂ ∧
        ps₁.min? = some min₁ ∧ ps₂.min? = some min₂ ∧ max₂ ≤ max₁ ∧ min₁ ≤ min₂ ∧
        ((¬∀ s ∈ scores, ∀ t ∈ scores, s = t) → max₂ < max₁ ∧ min₁ < min₂)) ∧
      ∀ (i j : ℕ) (p₁ q₁ p₂ q₂ : ℝ), ps₁[i]? = some p₁ → ps₁[j]? = some q₁ →
        ps₂[i]? = some p₂ → ps₂[j]? = some q₂ → (p₁ ≤ q₁ ↔ p₂ ≤ q₂) := by
  have h₂ := h₁.trans h₁₂
  obtain ⟨top, htop⟩ := Option.ne_none_iff_exists'.mp (mt List.max?_eq_none_iff.mp hne)
  obtain ⟨low, hlow⟩ := Option.ne_none_iff_exists'.mp (mt List.min?_eq_none_iff.mp hne)
  refine ⟨_, _, router₁.computeProbabilities_eq hne, router₂.computeProbabilities_eq hne,
    by simp [boltzmann], by simp [boltzmann], ⟨_, _, _, _, max?_boltzmann h₁ htop,
      max?_boltzmann h₂ htop, min?_boltzmann h₁ hlow, min?_boltzmann h₂ hlow,
      weightAt_max_le h₁ h₁₂ htop, weightAt_min_le h₁ h₁₂ hlow, fun hdiff => ?_⟩, ?_⟩
  · exact ⟨weightAt_max_lt h₁ h₁₂ htop (exists_lt_max htop hdiff),
      weightAt_min_lt h₁ h₁₂ hlow (exists_min_lt hlow hdiff)⟩
  · intro i j p₁ q₁ p₂ q₂ hp₁ hq₁ hp₂ hq₂
    simp only [boltzmann_eq_map_weightAt, List.getElem?_map, Option.map_eq_some_iff]
      at hp₁ hq₁ hp₂ hq₂
    obtain ⟨s, hs, rfl⟩ := hp₁
    obtain ⟨t, ht, rfl⟩ := hq₁
    obtain ⟨s', hs', rfl⟩ := hp₂
    obtain ⟨t', ht', rfl⟩ := hq₂
    obtain rfl : s = s' := Option.some.inj (hs.symm.trans hs')
    obtain rfl : t = t' := Option.some.inj (ht.symm.trans ht')
    rw [weightAt_le_iff h₁ hne, weightAt_le_iff h₂ hne]

/-- Three scores at the temperatures 0.1 and 5. -/
theorem lower_temperature_sharpens_three :
    ∃ ps₁ ps₂ : List ℝ,
      (Router.new Dict.empty none (some (1 / 10)) none).computeProbabilities [1, 2, 3] = .ok ps₁ ∧
      (Router.new Dict.empty none (some 5) none).computeProbabilities [1, 2, 3] = .ok ps₂ ∧
      ∃ max₁ max₂ min₁ min₂, ps₁.max? = some max₁ ∧ ps₂.max? = some max₂ ∧
        ps₁.min? = some min₁ ∧ ps₂.min? = some min₂ ∧ max₂ < max₁ ∧ min₁ < min₂ := by
  obtain ⟨ps₁, ps₂, hps₁, hps₂, -, -, ⟨max₁, max₂, min₁, min₂, h₁, h₂, h₃, h₄, -, -, hstrict⟩, -⟩ :=
    lower_temperature_sharpens (Router.new Dict.empty none (some (1 / 10)) none)
      (Router.new Dict.empty none (some 5) none) [1, 2, 3] (List.cons_ne_nil _ _)
      (by norm_num [Router.new]) (by norm_num [Router.new])
  refine ⟨ps₁, ps₂, hps₁, hps₂, max₁, max₂, min₁, min₂, h₁, h₂, h₃, h₄, hstrict fun hall => ?_⟩
  have h := hall 1 (by simp) 2 (by simp)
  norm_num at h

end StigmergicMesh.Router
