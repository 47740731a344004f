import StigmergicMesh.Library.Numeric
import StigmergicMesh.Field.InMemory

/-!
# Scores, capability match and probabilities

The pure functions of `StigmergicRouterAgent`: the attraction score of a row under the router's
weights and a call's overrides, the capability match of a worker with a request's context, and
the Boltzmann probabilities of a list of scores. A quotient by zero, which NumPy turns into an
infinity, is outside the model.
-/

namespace StigmergicMesh

/-- The four weights of the attraction score. -/
structure Weights (K : Type*) where
  alpha : K
  beta : K
  gamma : K
  delta : K

/-- The attributes of `BaseWorkerNode`. -/
structure Worker where
  nodeId : String
  capabilityTags : List String

structure Router (K : Type*) where
  workers : Dict String Worker
  weights : Weights K
  temperature : K

namespace Router

variable {K : Type*} [Field K]

/-- `_EPS`. -/
def eps : K := 1e-5

/-- `__init__`: `weights` gives alpha, beta and gamma, `delta` is an argument of its own. -/
def new (workers : Dict String Worker) (weights : Option (Dict String K))
    (temperature delta : Option K) : Router K where
  workers := workers
  weights :=
    { alpha := (weights.getD Dict.empty).getD "alpha" 1
      beta := (weights.getD Dict.empty).getD "beta" 2.0
      gamma := (weights.getD Dict.empty).getD "gamma" 1.5
      delta := delta.getD 1.5 }
  temperature := temperature.getD 0.5

/-! ## Scores -/

/-- The weights of one computation: an override wins over the configured weight. -/
def weightsFor (router : Router K) (weightsOverride : Option (Dict String K)) : Weights K :=
  let override := weightsOverride.getD Dict.empty
  { alpha := override.getD "alpha" router.weights.alpha
    beta := override.getD "beta" router.weights.beta
    gamma := override.getD "gamma" router.weights.gamma
    delta := override.getD "delta" router.weights.delta }

def scoreNumerator (w : Weights K) (r : Row K) : K := w.alpha * r.V + w.delta * r.C + eps

def scoreDenominator (w : Weights K) (r : Row K) : K := w.beta * r.L + w.gamma * r.S + eps

def score (w : Weights K) (r : Row K) : K := scoreNumerator w r / scoreDenominator w r

/-- `compute_scores`. -/
def computeScores (router : Router K) (state : List (Row K))
    (weightsOverride : Option (Dict String K)) : List K :=
  state.map (score (router.weightsFor weightsOverride))

/-- NumPy divides by no zero: neither the temperature nor the denominator of a score is zero. -/
structure Finite (router : Router K) (state : List (Row K))
    (weightsOverride : Option (Dict String K)) : Prop where
  temperature : router.temperature ≠ 0
  denominator : ∀ r ∈ state, scoreDenominator (router.weightsFor weightsOverride) r ≠ 0

variable [LinearOrder K]

/-- `compute_capability_match`. -/
def computeCapabilityMatch (worker : Worker) (capabilityContext : Option (Dict String K)) : K :=
  match capabilityContext with
  | none => 0.5
  | some context =>
    if context.entries.isEmpty then 0.5
    else if worker.capabilityTags.isEmpty then 0.5
    else
      let totalWeight := context.values.sum
      if totalWeight ≤ 0 then 0.5
      else
        let matched :=
          ((context.entries.filter (fun p => p.1 ∈ worker.capabilityTags)).map Prod.snd).sum
        min 1 (matched / totalWeight)

/-! ## Probabilities -/

variable [Transcendental K]

/-- `compute_probabilities`; `np.max` refuses an empty array. -/
def computeProbabilities (router : Router K) (scores : List K) : Except FieldError (List K) :=
  let scaled := scores.map (· / router.temperature)
  match scaled.max? with
  | none => .error (.valueError
      "zero-size array to reduction operation maximum which has no identity")
  | some top =>
    let expScores := scaled.map (fun x => Transcendental.exp (x - top))
    .ok (expScores.map (· / expScores.sum))

end Router

/-! ## Signs -/

namespace Weights

variable {K : Type*} [Field K] [LinearOrder K]

structure Nonneg (w : Weights K) : Prop where
  alpha : 0 ≤ w.alpha
  beta : 0 ≤ w.beta
  gamma : 0 ≤ w.gamma
  delta : 0 ≤ w.delta

end Weights

namespace Router

variable {K : Type*} [Field K] [LinearOrder K]

/-- The weights of the scores, shifted by some number, over their sum. -/
theorem computeProbabilities_of_ne_nil [Transcendental K] (router : Router K) {scores : List K}
    (h : scores ≠ []) : ∃ top, router.computeProbabilities scores = .ok
      (let expScores := (scores.map (· / router.temperature)).map fun x =>
        Transcendental.exp (x - top)
      expScores.map (· / expScores.sum)) := by
  have hmax : (scores.map (· / router.temperature)).max? ≠ none := by simpa using h
  simp only [computeProbabilities]
  split
  · exact absurd ‹_› hmax
  · exact ⟨_, rfl⟩

variable [IsStrictOrderedRing K]

theorem eps_pos : (0 : K) < eps := by
  unfold eps
  positivity

/-- The range of the traces keeps every denominator positive. -/
theorem scoreDenominator_pos {w : Weights K} (hw : w.Nonneg) {r : Row K} (hL : 0 ≤ r.L)
    (hS : 0 ≤ r.S) : 0 < scoreDenominator w r :=
  add_pos_of_nonneg_of_pos (add_nonneg (mul_nonneg hw.beta hL) (mul_nonneg hw.gamma hS)) eps_pos

theorem scoreNumerator_pos {w : Weights K} (hw : w.Nonneg) {r : Row K} (hV : 0 ≤ r.V)
    (hC : 0 ≤ r.C) : 0 < scoreNumerator w r :=
  add_pos_of_nonneg_of_pos (add_nonneg (mul_nonneg hw.alpha hV) (mul_nonneg hw.delta hC)) eps_pos

/-- A row in range has a positive score. -/
theorem score_pos {w : Weights K} (hw : w.Nonneg) {r : Row K} (hr : r.InRange) : 0 < score w r :=
  div_pos (scoreNumerator_pos hw hr.V_nonneg hr.C_nonneg)
    (scoreDenominator_pos hw hr.L_nonneg hr.S_nonneg)

omit [IsStrictOrderedRing K] in
theorem getD_nonneg {d : Dict String K} (hd : ∀ x ∈ d.values, 0 ≤ x) {a : String}
    {b : K} (hb : 0 ≤ b) : 0 ≤ d.getD a b := by
  rw [Dict.getD]
  cases h : d.get? a with
  | none => exact hb
  | some x => exact hd x (Dict.mem_values_of_get? h)

omit [IsStrictOrderedRing K] in
/-- Nonnegative overrides of nonnegative weights. -/
theorem weightsFor_nonneg {router : Router K} (hw : router.weights.Nonneg)
    {weightsOverride : Option (Dict String K)}
    (ho : ∀ d, weightsOverride = some d → ∀ x ∈ d.values, 0 ≤ x) :
    (router.weightsFor weightsOverride).Nonneg := by
  have hd : ∀ x ∈ (weightsOverride.getD Dict.empty).values, 0 ≤ x := by
    cases weightsOverride with
    | none => exact fun x hx => absurd hx List.not_mem_nil
    | some d => exact ho d rfl
  exact ⟨getD_nonneg hd hw.alpha, getD_nonneg hd hw.beta, getD_nonneg hd hw.gamma,
    getD_nonneg hd hw.delta⟩

/-- A context of nonnegative weights gives a match in the unit interval. -/
theorem computeCapabilityMatch_mem (worker : Worker) {context : Option (Dict String K)}
    (hc : ∀ d, context = some d → ∀ x ∈ d.values, 0 ≤ x) :
    0 ≤ computeCapabilityMatch worker context ∧ computeCapabilityMatch worker context ≤ 1 := by
  have half : (0 : K) ≤ 0.5 ∧ (0.5 : K) ≤ 1 := by constructor <;> norm_num
  cases context with
  | none => exact half
  | some d =>
    simp only [computeCapabilityMatch]
    split_ifs with h₁ h₂ h₃
    · exact half
    · exact half
    · exact half
    · refine ⟨le_min zero_le_one (div_nonneg (List.sum_nonneg fun x hx => ?_) (not_le.mp h₃).le),
        min_le_left _ _⟩
      obtain ⟨p, hp, rfl⟩ := List.mem_map.mp hx
      exact hc d rfl _ (List.mem_map.mpr ⟨p, (List.mem_filter.mp hp).1, rfl⟩)

end Router

end StigmergicMesh
