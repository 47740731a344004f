import StigmergicMesh.Router.Monotone

/-!
# What a tier prefers

The bias of a tier multiplies weights that stand in the numerator and the denominator of the
score. Whether it strengthens the preference for the faster or the emptier of two nodes depends on
the state: a penalty that already dominates the denominator makes both scores small, and a larger
one brings them closer together.
-/

namespace StigmergicMesh

namespace Weights

variable {K : Type*}

/-- The dictionary holds the four weights. -/
structure In (w : Weights K) (d : Dict String K) : Prop where
  alpha : d.get? "alpha" = some w.alpha
  beta : d.get? "beta" = some w.beta
  gamma : d.get? "gamma" = some w.gamma
  delta : d.get? "delta" = some w.delta

/-- The weights of a tier. -/
def biased [Field K] (w : Weights K) : Tier → Weights K
  | .enterprise => { w with alpha := w.alpha * 1.2, beta := w.beta * 1.5 }
  | .free => { w with gamma := w.gamma * 2.0, delta := w.delta * 2.0 }
  | .pro => w

end Weights

namespace Router

open TenantPolicyEngine

/-- The biased weights win over the router's own. -/
theorem weightsFor_applyGovernanceBias {K : Type*} [Field K] (router : Router K)
    {w : Weights K} {base : Dict String K} (hbase : w.In base) (tier : Option String) :
    router.weightsFor (some (applyGovernanceBias tier base)) = w.biased (normalizeTier tier) := by
  have hget : ∀ key x, key ∈ matrixWeightKeys → base.get? key = some x →
      (applyGovernanceBias tier base).get? key =
        some (x * (tierMultipliers (normalizeTier tier)).getD key 1) := by
    intro key x hkey hx
    rw [get?_applyGovernanceBias, if_pos hkey, hx, Option.map_some]
  have halpha := hget "alpha" _ (by decide) hbase.alpha
  have hbeta := hget "beta" _ (by decide) hbase.beta
  have hgamma := hget "gamma" _ (by decide) hbase.gamma
  have hdelta := hget "delta" _ (by decide) hbase.delta
  unfold weightsFor
  simp only [Option.getD_some]
  rw [Dict.getD, Dict.getD, Dict.getD, Dict.getD, halpha, hbeta, hgamma, hdelta]
  cases normalizeTier tier <;>
    simp [tierMultipliers, Weights.biased, Dict.getD, Dict.get?, Dict.empty]

/-- The tier's odds of node `i` against node `j` are at least those of a pro tenant. -/
def Prefers (router : Router ℝ) (state : List (Row ℝ)) (base : Dict String ℝ)
    (tier : Option String) (i j : ℕ) : Prop :=
  ∃ ps qs p p' q q',
    router.choiceProbabilities state none (some (applyGovernanceBias tier base)) = .ok ps ∧
    router.choiceProbabilities state none (some (applyGovernanceBias (some "pro") base)) = .ok qs ∧
    ps[i]? = some p ∧ ps[j]? = some p' ∧ qs[i]? = some q ∧ qs[j]? = some q' ∧
    q / q' ≤ p / p'

/-- A tier's odds of two nodes are the exponential of the difference between their scores. -/
theorem tier_odds (router : Router ℝ) {state : List (Row ℝ)} {w : Weights ℝ}
    {base : Dict String ℝ} (hbase : w.In base) (tier : Option String) {i j : ℕ} {r r' : Row ℝ}
    (hr : state[i]? = some r) (hr' : state[j]? = some r') :
    ∃ ps p p',
      router.choiceProbabilities state none (some (applyGovernanceBias tier base)) = .ok ps ∧
      ps[i]? = some p ∧ ps[j]? = some p' ∧
      p / p' = Real.exp ((score (w.biased (normalizeTier tier)) r -
        score (w.biased (normalizeTier tier)) r') / router.temperature) := by
  have hne : state ≠ [] := List.ne_nil_of_mem (List.mem_of_getElem? hr)
  set scaled := state.map fun r => score (w.biased (normalizeTier tier)) r / router.temperature
    with hscaled
  have hentry : ∀ {k : ℕ} {x : Row ℝ}, state[k]? = some x →
      scaled[k]? = some (score (w.biased (normalizeTier tier)) x / router.temperature) := by
    intro k x hx
    simp [hscaled, hx]
  have hp := Softmax.getElem?_softmax (hentry hr)
  have hp' := Softmax.getElem?_softmax (hentry hr')
  refine ⟨Softmax.softmax scaled, _, _, ?_, hp, hp', ?_⟩
  · rw [choiceProbabilities_none router hne, weightsFor_applyGovernanceBias router hbase]
  · rw [sub_div]
    exact Softmax.softmax_ratio (hentry hr) (hentry hr') hp hp'

/-- The greater odds are those of the greater difference. -/
theorem prefers_iff (router : Router ℝ) (hT : 0 < router.temperature) {state : List (Row ℝ)}
    {w : Weights ℝ} {base : Dict String ℝ} (hbase : w.In base) (tier : Option String) {i j : ℕ}
    {r r' : Row ℝ} (hr : state[i]? = some r) (hr' : state[j]? = some r') :
    router.Prefers state base tier i j ↔
      score w r - score w r' ≤
        score (w.biased (normalizeTier tier)) r - score (w.biased (normalizeTier tier)) r' := by
  obtain ⟨ps, p, p', hps, hp, hp', hodds⟩ := router.tier_odds hbase tier hr hr'
  obtain ⟨qs, q, q', hqs, hq, hq', hpro⟩ := router.tier_odds hbase (some "pro") hr hr'
  have hbiased : w.biased (normalizeTier (some "pro")) = w := rfl
  have hcompare : q / q' ≤ p / p' ↔ score w r - score w r' ≤
      score (w.biased (normalizeTier tier)) r - score (w.biased (normalizeTier tier)) r' := by
    rw [hodds, hpro, hbiased, Real.exp_le_exp, div_le_div_iff_of_pos_right hT]
  rw [← hcompare]
  constructor
  · rintro ⟨ps', qs', x, x', y, y', hps', hqs', hx, hx', hy, hy', hle⟩
    grind
  · exact fun hle => ⟨ps, qs, p, p', q, q', hps, hqs, hp, hp', hq, hq', hle⟩

/-! ## The gap between two scores -/

/-- Scaling the part of the denominators in which two fractions differ widens the gap between
them exactly if the numerator makes up for the larger denominators. -/
theorem gap_le_gap_iff {K : Type*} [Field K] [LinearOrder K] [IsStrictOrderedRing K]
    {N M D a b k : K} (hk : 0 < k) (hD : 0 < D) (ha : 0 ≤ a) (hab : a < b) :
    N / (a + D) - N / (b + D) ≤ M / (k * a + D) - M / (k * b + D) ↔
      N * ((k * a + D) * (k * b + D)) ≤ M * k * ((a + D) * (b + D)) := by
  have hb : 0 < b := ha.trans_lt hab
  have h₁ : 0 < a + D := by positivity
  have h₂ : 0 < b + D := by positivity
  have h₃ : 0 < k * a + D := by positivity
  have h₄ : 0 < k * b + D := by positivity
  have hgap : N / (a + D) - N / (b + D) = (b - a) * (N / ((a + D) * (b + D))) := by
    field_simp
    ring
  have hgap' : M / (k * a + D) - M / (k * b + D) =
      (b - a) * (M * k / ((k * a + D) * (k * b + D))) := by
    field_simp
    ring
  rw [hgap, hgap', mul_le_mul_iff_right₀ (sub_pos.mpr hab),
    div_le_div_iff₀ (mul_pos h₁ h₂) (mul_pos h₃ h₄)]

/-- The latencies do not dominate both denominators: what the larger penalty takes from the gap is
covered by what the larger success weight adds. -/
def LatencyBiasBites {K : Type*} [Field K] [LE K] (w : Weights K) (r r' : Row K) : Prop :=
  scoreNumerator w r * (3 * (w.beta * r.L) * (w.beta * r'.L) - 2 * (w.gamma * r.S + eps) ^ 2) ≤
    1.2 * (w.alpha * r.V) * (scoreDenominator w r * scoreDenominator w r')

/-- The same for the saturations and the capability weight. -/
def SaturationBiasBites {K : Type*} [Field K] [LE K] (w : Weights K) (r r' : Row K) : Prop :=
  scoreNumerator w r * (2 * (w.gamma * r.S) * (w.gamma * r'.S) - (w.beta * r.L + eps) ^ 2) ≤
    2 * (w.delta * r.C) * (scoreDenominator w r * scoreDenominator w r')

section Gaps

variable {K : Type*} [Field K] [LinearOrder K] [IsStrictOrderedRing K] {w : Weights K} {r : Row K}

theorem enterprise_gap_iff (hw : w.Pos) (hr : r.InRange) {slower : K} (hslower : r.L < slower) :
    score w r - score w { r with L := slower } ≤
        score (w.biased .enterprise) r - score (w.biased .enterprise) { r with L := slower } ↔
      LatencyBiasBites w r { r with L := slower } := by
  have hD : 0 < w.gamma * r.S + eps :=
    add_pos_of_nonneg_of_pos (mul_nonneg hw.gamma.le hr.S_nonneg) eps_pos
  have hgap := gap_le_gap_iff (N := scoreNumerator w r)
    (M := scoreNumerator (w.biased .enterprise) r) (k := 1.5) (by norm_num) hD
    (mul_nonneg hw.beta.le hr.L_nonneg) (mul_lt_mul_of_pos_left hslower hw.beta)
  have hscores : score w r - score w { r with L := slower } ≤
        score (w.biased .enterprise) r - score (w.biased .enterprise) { r with L := slower } ↔
      scoreNumerator w r / (w.beta * r.L + (w.gamma * r.S + eps)) -
          scoreNumerator w r / (w.beta * slower + (w.gamma * r.S + eps)) ≤
        scoreNumerator (w.biased .enterprise) r /
            (1.5 * (w.beta * r.L) + (w.gamma * r.S + eps)) -
          scoreNumerator (w.biased .enterprise) r /
            (1.5 * (w.beta * slower) + (w.gamma * r.S + eps)) := by
    simp only [score, scoreNumerator, scoreDenominator, Weights.biased, add_assoc]
    ring_nf
  rw [hscores, hgap, LatencyBiasBites]
  simp only [scoreNumerator, scoreDenominator, Weights.biased]
  constructor <;> intro h <;> linarith

theorem free_gap_iff (hw : w.Pos) (hr : r.InRange) {fuller : K} (hfuller : r.S < fuller) :
    score w r - score w { r with S := fuller } ≤
        score (w.biased .free) r - score (w.biased .free) { r with S := fuller } ↔
      SaturationBiasBites w r { r with S := fuller } := by
  have htwo : (2.0 : K) = 2 := by norm_num
  have hD : 0 < w.beta * r.L + eps :=
    add_pos_of_nonneg_of_pos (mul_nonneg hw.beta.le hr.L_nonneg) eps_pos
  have hgap := gap_le_gap_iff (N := scoreNumerator w r)
    (M := scoreNumerator (w.biased .free) r) (k := 2) (by norm_num) hD
    (mul_nonneg hw.gamma.le hr.S_nonneg) (mul_lt_mul_of_pos_left hfuller hw.gamma)
  have hscores : score w r - score w { r with S := fuller } ≤
        score (w.biased .free) r - score (w.biased .free) { r with S := fuller } ↔
      scoreNumerator w r / (w.gamma * r.S + (w.beta * r.L + eps)) -
          scoreNumerator w r / (w.gamma * fuller + (w.beta * r.L + eps)) ≤
        scoreNumerator (w.biased .free) r / (2 * (w.gamma * r.S) + (w.beta * r.L + eps)) -
          scoreNumerator (w.biased .free) r / (2 * (w.gamma * fuller) + (w.beta * r.L + eps)) := by
    simp only [score, scoreNumerator, scoreDenominator, Weights.biased, htwo, add_assoc]
    ring_nf
  rw [hscores, hgap, SaturationBiasBites]
  simp only [scoreNumerator, scoreDenominator, Weights.biased, htwo]
  constructor <;> intro h <;> linarith

end Gaps

/-- An enterprise tenant's odds for the faster of two nodes, and a free tenant's for the emptier
one, are at least a pro tenant's exactly where the raised penalty does not dominate. -/
theorem tier_bias_iff (router : Router ℝ) (hT : 0 < router.temperature) (state : List (Row ℝ))
    (hstate : ∀ r ∈ state, r.InRange) (w : Weights ℝ) (hw : w.Pos) (base : Dict String ℝ)
    (hbase : w.In base) (i j : ℕ) (r : Row ℝ) (hr : state[i]? = some r) :
    (∀ slower, r.L < slower → state[j]? = some { r with L := slower } →
        (router.Prefers state base (some "enterprise") i j ↔
          LatencyBiasBites w r { r with L := slower })) ∧
      ∀ fuller, r.S < fuller → state[j]? = some { r with S := fuller } →
        (router.Prefers state base (some "free") i j ↔
          SaturationBiasBites w r { r with S := fuller }) := by
  have hrange := hstate r (List.mem_of_getElem? hr)
  constructor
  · intro slower hslower hr'
    rw [prefers_iff router hT hbase _ hr hr']
    exact enterprise_gap_iff hw hrange hslower
  · intro fuller hfuller hr'
    rw [prefers_iff router hT hbase _ hr hr']
    exact free_gap_iff hw hrange hfuller

/-! ## The default weights -/

/-- The default weights as the server hands them over. -/
def defaultBase : Dict String ℝ :=
  ⟨[("alpha", 1), ("beta", 2), ("gamma", 1.5), ("delta", 1.5)], by simp⟩

theorem defaultBase_in : Weights.In ⟨1, 2, 1.5, 1.5⟩ defaultBase := by
  constructor <;> simp [defaultBase, Dict.get?]

/-- On two nodes that are all but idle both tiers strengthen the preference. -/
theorem tier_bias_idle :
    sampleRouter.Prefers [⟨1, 0, 1, 1⟩, ⟨1, 0.1, 1, 1⟩] defaultBase (some "enterprise") 0 1 :=
  ((tier_bias_iff sampleRouter (by norm_num [sampleRouter, Router.new])
    [⟨1, 0, 1, 1⟩, ⟨1, 0.1, 1, 1⟩]
    (List.forall_mem_cons.mpr ⟨by constructor <;> norm_num,
      List.forall_mem_singleton.mpr (by constructor <;> norm_num)⟩)
    ⟨1, 2, 1.5, 1.5⟩ (by constructor <;> norm_num) defaultBase defaultBase_in 0 1 _ rfl).1
    0.1 (by norm_num) rfl).mpr
      (by norm_num [LatencyBiasBites, scoreNumerator, scoreDenominator, eps])

/-- On a baseline row and one of twice its latency an enterprise tenant is less inclined to the
faster node than a pro tenant; on two loaded rows without latency a free tenant is less inclined
to the emptier one. -/
theorem tier_bias_reversed :
    ¬sampleRouter.Prefers [⟨1, 0.1, 0, 1⟩, ⟨1, 0.2, 0, 1⟩] defaultBase (some "enterprise") 0 1 ∧
      ¬sampleRouter.Prefers [⟨1, 0, 0.5, 1⟩, ⟨1, 0, 1, 1⟩] defaultBase (some "free") 0 1 := by
  have hT : 0 < sampleRouter.temperature := by norm_num [sampleRouter, Router.new]
  have hw : Weights.Pos (⟨1, 2, 1.5, 1.5⟩ : Weights ℝ) := by constructor <;> norm_num
  constructor
  · rw [prefers_iff sampleRouter hT defaultBase_in _ rfl rfl]
    intro h
    have hbites := (enterprise_gap_iff (r := ⟨1, 0.1, 0, 1⟩) hw
      (by constructor <;> norm_num) (by norm_num : (0.1 : ℝ) < 0.2)).mp h
    norm_num [LatencyBiasBites, scoreNumerator, scoreDenominator, eps] at hbites
  · rw [prefers_iff sampleRouter hT defaultBase_in _ rfl rfl]
    intro h
    have hbites := (free_gap_iff (r := ⟨1, 0, 0.5, 1⟩) hw
      (by constructor <;> norm_num) (by norm_num : (0.5 : ℝ) < 1)).mp h
    norm_num [SaturationBiasBites, scoreNumerator, scoreDenominator, eps] at hbites

end Router

end StigmergicMesh
