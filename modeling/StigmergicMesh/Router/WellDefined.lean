import StigmergicMesh.Field.Ranges
import StigmergicMesh.Library.Softmax
import StigmergicMesh.Router.Governance
import StigmergicMesh.Router.Scores

/-!
# Routing is well defined

On rows in range and with nonnegative weights the score denominators are positive, and the
probabilities are the Boltzmann distribution of the scores: the shift by the maximum in
`compute_probabilities` cancels. The rows of a field that has only seen nonnegative observations
are in range, so this holds in every such field that tracks a node.
-/

namespace StigmergicMesh.Router

open InMemoryField Softmax

/-- `exp(s_i / T) / sum_j exp(s_j / T)`. -/
noncomputable def boltzmann (temperature : ℝ) (scores : List ℝ) : List ℝ :=
  scores.map (fun s =>
    Real.exp (s / temperature) / (scores.map (fun t => Real.exp (t / temperature))).sum)

/-- The scores of the rows are quotients by positive numbers, and their probabilities are the
positive Boltzmann probabilities, which sum to one. -/
structure WellDefined (router : Router ℝ) (weightsOverride : Option (Dict String ℝ))
    (state : List (Row ℝ)) : Prop where
  denominator_pos : ∀ r ∈ state, 0 < scoreDenominator (router.weightsFor weightsOverride) r
  probabilities : ∃ ps,
    router.computeProbabilities (router.computeScores state weightsOverride) = .ok ps ∧
      ps.length = state.length ∧ (∀ p ∈ ps, 0 < p) ∧ ps.sum = 1 ∧
      ps = boltzmann router.temperature (router.computeScores state weightsOverride)

theorem boltzmann_eq_softmax (temperature : ℝ) (scores : List ℝ) :
    boltzmann temperature scores = softmax (scores.map (· / temperature)) := by
  simp only [boltzmann, softmax, Softmax.partition, List.map_map]
  rfl

/-- The shift by the maximum cancels. -/
theorem computeProbabilities_eq (router : Router ℝ) {scores : List ℝ} (h : scores ≠ []) :
    router.computeProbabilities scores = .ok (boltzmann router.temperature scores) := by
  obtain ⟨top, htop⟩ := router.computeProbabilities_of_ne_nil h
  rw [htop, boltzmann_eq_softmax, ← softmax_sub _ top]
  simp only [softmax, Softmax.partition, List.map_map, Transcendental.exp_real]
  rfl

/-- The probabilities of any scores are positive and sum to one. -/
theorem computeProbabilities_distribution (router : Router ℝ) {scores ps : List ℝ}
    (h : router.computeProbabilities scores = .ok ps) : (∀ p ∈ ps, 0 < p) ∧ ps.sum = 1 := by
  have hne : scores ≠ [] := by
    rintro rfl
    cases h
  rw [router.computeProbabilities_eq hne, boltzmann_eq_softmax] at h
  obtain rfl := Except.ok.inj h
  exact ⟨fun p hp => pos_of_mem_softmax hp, sum_softmax (by simpa using hne)⟩

theorem wellDefined_of_denominator_pos {router : Router ℝ}
    {weightsOverride : Option (Dict String ℝ)} {state : List (Row ℝ)} (hne : state ≠ [])
    (hpos : ∀ r ∈ state, 0 < scoreDenominator (router.weightsFor weightsOverride) r) :
    router.WellDefined weightsOverride state where
  denominator_pos := hpos
  probabilities := by
    have hscores : router.computeScores state weightsOverride ≠ [] := by
      simpa [computeScores] using hne
    have hps := router.computeProbabilities_eq hscores
    obtain ⟨hp, hsum⟩ := router.computeProbabilities_distribution hps
    exact ⟨_, hps, by simp [boltzmann, computeScores], hp, hsum, rfl⟩

theorem wellDefined_of_inRange {router : Router ℝ} {weightsOverride : Option (Dict String ℝ)}
    (hw : (router.weightsFor weightsOverride).Nonneg) {state : List (Row ℝ)} (hne : state ≠ [])
    (hrows : ∀ r ∈ state, r.InRange) : router.WellDefined weightsOverride state :=
  wellDefined_of_denominator_pos hne fun r hr =>
    scoreDenominator_pos hw (hrows r hr).L_nonneg (hrows r hr).S_nonneg

/-- In every field reached by nonnegative observations the traces are in range and no latency
exceeds the initial ones, the baseline's and the deposited ones, of its own node if the ids are
distinct; routing is then well defined for all nonnegative weights, those of every tier among them,
as long as a node is tracked. -/
theorem routing_well_defined (ids : List String) (initial : Option (List (Row ℝ)))
    (hinit : ∀ rows, initial = some rows → ∀ r ∈ rows, r.InRange) (scale : ℝ) (hs : 0 ≤ scale)
    (flags : Row.DecayFlags) (f₀ : InMemoryField ℝ)
    (hnew : InMemoryField.new ids initial scale flags = .ok f₀) (ops : List (Op ℝ))
    (hops : ∀ op ∈ ops, op.Nonneg) :
    (∀ r ∈ (f₀.run ops).getStateVector, r.InRange ∧
        ∀ bound, (∀ r₀ ∈ f₀.getStateVector, r₀.L ≤ bound) → r.L ≤ ops.foldl Op.raise bound) ∧
      (ids.Nodup → ∀ n r, (f₀.run ops).exportStateDict.get? n = some r →
        ∃ life, lifeOf n (initialRow ids initial n) ops = some life ∧
          r.L ≤ life.latencyCeiling) ∧
      ((f₀.run ops).nodeIds ≠ [] → ∀ router : Router ℝ, router.weights.Nonneg →
        0 < router.temperature →
          (∀ weightsOverride : Option (Dict String ℝ),
            (∀ d, weightsOverride = some d → ∀ x ∈ d.values, 0 ≤ x) →
              router.WellDefined weightsOverride (f₀.run ops).getStateVector) ∧
          ∀ (tier : Option String) (matrixWeights : Dict String ℝ),
            (∀ x ∈ matrixWeights.values, 0 ≤ x) →
              router.WellDefined
                (some (TenantPolicyEngine.applyGovernanceBias tier matrixWeights))
                (f₀.run ops).getStateVector) := by
  obtain ⟨hlen, hscale, hrows⟩ := new_inRange hinit hnew
  rw [← hscale] at hs
  have hrange := run_inRange hs hrows hops
  refine ⟨hrange, fun hids n r hr => ?_, fun hne router hw hT => ?_⟩
  · obtain ⟨hc₀, -, -, hrow₀⟩ := consistent_new hids initial hnew
    rw [(hc₀.run ops).1.get?_exportStateDict] at hr
    rw [← hrow₀ n]
    exact hc₀.run_latency_le (fun m r₀ h₀ => hrows r₀ (mem_state_of_rowOf h₀)) hs hops hr
  · have hstate : (f₀.run ops).getStateVector ≠ [] := by
      rw [← List.length_pos_iff, InMemoryField.getStateVector, run_rows hlen ops]
      exact List.length_pos_iff.mpr hne
    have hin : ∀ r ∈ (f₀.run ops).getStateVector, r.InRange := fun r hr => (hrange r hr).1
    refine ⟨fun o ho => wellDefined_of_inRange (weightsFor_nonneg hw ho) hstate hin,
      fun tier base hbase => wellDefined_of_inRange (weightsFor_nonneg hw ?_) hstate hin⟩
    rintro d ⟨⟩
    exact TenantPolicyEngine.applyGovernanceBias_nonneg tier hbase

/-- Two nodes, one removed and the other slow, seen by a tenant of the free tier. -/
theorem routing_well_defined_free :
    ∃ f₀ : InMemoryField ℝ,
      InMemoryField.new ["a", "b"] none (1 / 10) ⟨true, true⟩ = .ok f₀ ∧
      (Router.new Dict.empty none none none : Router ℝ).WellDefined
        (some (TenantPolicyEngine.applyGovernanceBias (some "free")
          ⟨[("alpha", 1), ("gamma", 3 / 2)], by simp⟩))
        (f₀.run [.removeNode "a", .depositTrace "b" ⟨3, 5, true, 2, 7⟩]).getStateVector := by
  refine ⟨_, rfl, ?_⟩
  have h := (routing_well_defined ["a", "b"] none (by simp) (1 / 10) (by norm_num)
    ⟨true, true⟩ _ rfl [.removeNode "a", .depositTrace "b" ⟨3, 5, true, 2, 7⟩]
    (by simp [Op.Nonneg])).2.2 (List.cons_ne_nil "b" [])
    (Router.new Dict.empty none none none) (by constructor <;> norm_num [Router.new, Dict.getD])
    (by norm_num [Router.new])
  refine h.2 (some "free") _ fun x hx => ?_
  rcases List.mem_cons.mp hx with rfl | hx
  · exact zero_le_one
  · obtain rfl := List.mem_singleton.mp hx
    norm_num

end StigmergicMesh.Router
