import StigmergicMesh.Router.Selection

/-!
# Better traces are chosen more often

The score rises with success and capability and falls with latency and saturation; a raised score
takes probability from every other node. With a capability context the matches multiply the
scores, and a node that is at least as good in everything stays at least as likely.
-/

namespace StigmergicMesh

/-- At least as good in all four traces. -/
structure Row.AtLeast {K : Type*} [LE K] (r r' : Row K) : Prop where
  V : r'.V ≤ r.V
  L : r.L ≤ r'.L
  S : r.S ≤ r'.S
  C : r'.C ≤ r.C

structure Weights.Pos {K : Type*} [Zero K] [LT K] (w : Weights K) : Prop where
  alpha : 0 < w.alpha
  beta : 0 < w.beta
  gamma : 0 < w.gamma
  delta : 0 < w.delta

theorem Weights.Pos.nonneg {K : Type*} [Field K] [LinearOrder K] {w : Weights K} (hw : w.Pos) :
    w.Nonneg :=
  ⟨hw.alpha.le, hw.beta.le, hw.gamma.le, hw.delta.le⟩

namespace Router

/-! ## Scores -/

section Scores

variable {K : Type*} [Field K] [LinearOrder K] [IsStrictOrderedRing K] {w : Weights K}
  {r r' : Row K}

theorem scoreNumerator_mono (hw : w.Nonneg) (h : r.AtLeast r') :
    scoreNumerator w r' ≤ scoreNumerator w r := by
  have hV := mul_le_mul_of_nonneg_left h.V hw.alpha
  have hC := mul_le_mul_of_nonneg_left h.C hw.delta
  unfold scoreNumerator
  linarith

theorem scoreDenominator_mono (hw : w.Nonneg) (h : r.AtLeast r') :
    scoreDenominator w r ≤ scoreDenominator w r' := by
  have hL := mul_le_mul_of_nonneg_left h.L hw.beta
  have hS := mul_le_mul_of_nonneg_left h.S hw.gamma
  unfold scoreDenominator
  linarith

theorem score_mono (hw : w.Nonneg) (hr : r.InRange) (h : r.AtLeast r') :
    score w r' ≤ score w r :=
  div_le_div₀ (scoreNumerator_pos hw hr.V_nonneg hr.C_nonneg).le (scoreNumerator_mono hw h)
    (scoreDenominator_pos hw hr.L_nonneg hr.S_nonneg) (scoreDenominator_mono hw h)

/-- With positive weights every trace counts. -/
theorem score_strictMono (hw : w.Pos) (hr : r.InRange) (hr' : r'.InRange) (h : r.AtLeast r')
    (hne : r ≠ r') : score w r' < score w r := by
  have hnum := scoreNumerator_mono hw.nonneg h
  have hden := scoreDenominator_mono hw.nonneg h
  have hN' := scoreNumerator_pos hw.nonneg hr'.V_nonneg hr'.C_nonneg
  have hD := scoreDenominator_pos hw.nonneg hr.L_nonneg hr.S_nonneg
  have hD' := scoreDenominator_pos hw.nonneg hr'.L_nonneg hr'.S_nonneg
  have hstrict : scoreNumerator w r' < scoreNumerator w r ∨
      scoreDenominator w r < scoreDenominator w r' := by
    by_contra hnot
    rw [not_or, not_lt, not_lt] at hnot
    unfold scoreNumerator scoreDenominator at hnot
    have hV := mul_le_mul_of_nonneg_left h.V hw.alpha.le
    have hL := mul_le_mul_of_nonneg_left h.L hw.beta.le
    have hS := mul_le_mul_of_nonneg_left h.S hw.gamma.le
    have hC := mul_le_mul_of_nonneg_left h.C hw.delta.le
    apply hne
    obtain ⟨V, L, S, C⟩ := r
    obtain ⟨V', L', S', C'⟩ := r'
    simp only [Row.mk.injEq] at hnot hV hL hS hC ⊢
    refine ⟨mul_left_cancel₀ hw.alpha.ne' ?_, mul_left_cancel₀ hw.beta.ne' ?_,
      mul_left_cancel₀ hw.gamma.ne' ?_, mul_left_cancel₀ hw.delta.ne' ?_⟩ <;> linarith
  rw [score, score, div_lt_div_iff₀ hD' hD]
  rcases hstrict with hlt | hlt
  · exact mul_lt_mul hlt hden hD (hN'.le.trans hnum)
  · exact mul_lt_mul' hnum hlt hD.le (hN'.trans_le hnum)

end Scores

/-! ## Probabilities -/

/-- What a node's score is multiplied by: its worker's match, if there is a context. -/
def boostOf {K : Type*} [Field K] [LinearOrder K] (context : Option (Dict String K))
    (worker : Worker) : K :=
  match context with
  | none => 1
  | some c => if c.entries.isEmpty then 1 else computeCapabilityMatch worker context

/-- A context without entries boosts nothing. -/
theorem boosted_of_no_entries {K : Type*} [Field K] [LinearOrder K] (router : Router K)
    {context : Option (Dict String K)} (h : ¬∃ d, context = some d ∧ d.entries ≠ [])
    (scores : List K) :
    router.boosted scores context = .ok scores ∧ ∀ worker, boostOf context worker = 1 := by
  cases context with
  | none => exact ⟨rfl, fun _ => rfl⟩
  | some d =>
    have hd : d.entries = [] := by simpa using h
    simp [boosted, boostOf, hd]

theorem boostOf_nonneg {context : Option (Dict String ℝ)}
    (hc : ∀ d, context = some d → ∀ x ∈ d.values, 0 ≤ x) (worker : Worker) :
    0 ≤ boostOf context worker := by
  unfold boostOf
  split
  · exact zero_le_one
  · split
    · exact zero_le_one
    · exact (computeCapabilityMatch_mem worker hc).1

theorem boostOf_mono {K : Type*} [Field K] [LinearOrder K] {context : Option (Dict String K)}
    {w w' : Worker} (h : computeCapabilityMatch w' context ≤ computeCapabilityMatch w context) :
    boostOf context w' ≤ boostOf context w := by
  unfold boostOf
  split
  · exact le_rfl
  · split
    · exact le_rfl
    · exact h

/-- Without a context the probabilities are those of the scores. -/
theorem choiceProbabilities_none (router : Router ℝ) {state : List (Row ℝ)} (hne : state ≠ [])
    (weightsOverride : Option (Dict String ℝ)) :
    router.choiceProbabilities state none weightsOverride =
      .ok (Softmax.softmax
        (state.map fun r => score (router.weightsFor weightsOverride) r / router.temperature)) := by
  have hscores : router.computeScores state weightsOverride ≠ [] := by
    simpa [computeScores] using hne
  simp only [choiceProbabilities, boosted]
  rw [computeProbabilities_eq router hscores, boltzmann_eq_softmax, computeScores, List.map_map]
  rfl

/-- With workers and nodes in one order every node's score is multiplied by its own boost. -/
theorem choiceProbabilities_aligned (router : Router ℝ) {field : InMemoryField ℝ}
    (hf : field.Consistent) (hne : field.nodeIds ≠ [])
    (horder : router.workers.keys = field.nodeIds)
    (context weightsOverride : Option (Dict String ℝ)) :
    ∃ xs : List ℝ,
      router.choiceProbabilities field.getStateVector context weightsOverride =
        .ok (boltzmann router.temperature xs) ∧
      ∀ (i : ℕ) r worker, field.getStateVector[i]? = some r →
        router.workers.values[i]? = some worker →
        xs[i]? = some (score (router.weightsFor weightsOverride) r * boostOf context worker) := by
  have hlen : router.workers.keys.length = field.nodeIds.length := by rw [horder]
  have hscores : router.computeScores field.getStateVector weightsOverride ≠ [] := by
    rw [← List.length_pos_iff] at hne ⊢
    rw [computeScores_length router hf]
    exact hne
  by_cases hcontext : ∃ d, context = some d ∧ d.entries ≠ []
  · obtain ⟨d, rfl, hd⟩ := hcontext
    refine ⟨_, choiceProbabilities_eq hlen hf hne hd weightsOverride, ?_⟩
    intro i r worker hr hworker
    have hboost : (router.workers.keys.map (router.capabilityOf d))[i]? =
        some (computeCapabilityMatch worker (some d)) := by
      have hvalues := router.workers.map_values (computeCapabilityMatch · (some d)) 0
      rw [show router.workers.keys.map (router.capabilityOf d) = _ from hvalues.symm]
      simp [hworker]
    rw [List.getElem?_zipWith_eq_some]
    exact ⟨score (router.weightsFor weightsOverride) r, _, by simp [computeScores, hr], hboost,
      by simp [boostOf, hd]⟩
  · obtain ⟨hboosted, hone⟩ := router.boosted_of_no_entries hcontext
      (router.computeScores field.getStateVector weightsOverride)
    refine ⟨router.computeScores field.getStateVector weightsOverride, ?_, ?_⟩
    · rw [choiceProbabilities, hboosted]
      exact computeProbabilities_eq router hscores
    · intro i r worker hr _
      simp [computeScores, hr, hone]

/-- From `ps` to `qs` the probability of node `i` rises and every other one falls. -/
def Gains (ps qs : List ℝ) (i : ℕ) : Prop :=
  (∃ p q, ps[i]? = some p ∧ qs[i]? = some q ∧ p < q) ∧
    ∀ j, j ≠ i → j < ps.length → ∃ p q, ps[j]? = some p ∧ qs[j]? = some q ∧ q < p

/-- Better traces raise a node's probability and lower every other one's, and a node that is at
least as good in its traces and its match is at least as likely. -/
theorem selection_follows_traces (router : Router ℝ) (hT : 0 < router.temperature)
    (weightsOverride : Option (Dict String ℝ)) (hw : (router.weightsFor weightsOverride).Pos) :
    (∀ (state : List (Row ℝ)), (∀ r ∈ state, r.InRange) → 2 ≤ state.length →
      ∀ (i : ℕ) r r', state[i]? = some r → r'.InRange → r'.AtLeast r → r' ≠ r →
        ∃ ps qs, router.choiceProbabilities state none weightsOverride = .ok ps ∧
          router.choiceProbabilities (state.set i r') none weightsOverride = .ok qs ∧
          Gains ps qs i) ∧
      ∀ (field : InMemoryField ℝ), field.Consistent → field.nodeIds ≠ [] →
        (∀ r ∈ field.getStateVector, r.InRange) → router.workers.keys = field.nodeIds →
        ∀ context : Option (Dict String ℝ), (∀ d, context = some d → ∀ x ∈ d.values, 0 ≤ x) →
          ∃ ps, router.choiceProbabilities field.getStateVector context weightsOverride = .ok ps ∧
            ∀ (i j : ℕ) r r' worker worker', field.getStateVector[i]? = some r →
              field.getStateVector[j]? = some r' → router.workers.values[i]? = some worker →
              router.workers.values[j]? = some worker' → r.AtLeast r' →
              computeCapabilityMatch worker' context ≤ computeCapabilityMatch worker context →
              ∃ p q, ps[i]? = some p ∧ ps[j]? = some q ∧ q ≤ p := by
  constructor
  · intro state hstate hlen i r r' hr hr' hbetter hne
    have hstate₀ : state ≠ [] := List.ne_nil_of_mem (List.mem_of_getElem? hr)
    have hset₀ : state.set i r' ≠ [] := by simpa using hstate₀
    refine ⟨_, _, choiceProbabilities_none router hstate₀ weightsOverride,
      choiceProbabilities_none router hset₀ weightsOverride, ?_⟩
    set f := fun r => score (router.weightsFor weightsOverride) r / router.temperature
    have hx : (state.map f)[i]? = some (f r) := by simp [hr]
    have hlt : f r < f r' := div_lt_div_of_pos_right
      (score_strictMono hw hr' (hstate r (List.mem_of_getElem? hr)) hbetter hne) hT
    rw [List.map_set]
    refine ⟨Softmax.softmax_set_self hx (by simpa using hlen) hlt, fun j hj hjlen => ?_⟩
    exact Softmax.softmax_set_ne hx hlt hj (by simpa [Softmax.softmax] using hjlen)
  · intro field hf hne hrows horder context hc
    obtain ⟨xs, hps, hentry⟩ :=
      choiceProbabilities_aligned router hf hne horder context weightsOverride
    refine ⟨_, hps, fun i j r r' worker worker' hr hr' hworker hworker' hbetter hmatch => ?_⟩
    have hrange := hrows r (List.mem_of_getElem? hr)
    have hrange' := hrows r' (List.mem_of_getElem? hr')
    have hscore := score_mono hw.nonneg hrange hbetter
    have hboosted := mul_le_mul hscore (boostOf_mono hmatch) (boostOf_nonneg hc worker')
      (score_pos hw.nonneg hrange).le
    have hx := congrArg (Option.map (· / router.temperature)) (hentry i r worker hr hworker)
    have hx' := congrArg (Option.map (· / router.temperature)) (hentry j r' worker' hr' hworker')
    rw [← List.getElem?_map, Option.map_some] at hx hx'
    rw [boltzmann_eq_softmax]
    refine ⟨_, _, Softmax.getElem?_softmax hx, Softmax.getElem?_softmax hx', ?_⟩
    exact Softmax.softmax_mono hx' hx (Softmax.getElem?_softmax hx')
      (Softmax.getElem?_softmax hx) (div_le_div_of_nonneg_right hboosted hT.le)

/-- A node whose latency is halved gains, and a job for GPUs prefers the node that has one. -/
theorem selection_follows_latency :
    (∃ ps qs,
      sampleRouter.choiceProbabilities [⟨1 / 2, 1, 0, 1⟩, ⟨1, 1, 1, 1⟩] none none = .ok ps ∧
        sampleRouter.choiceProbabilities
          (([⟨1 / 2, 1, 0, 1⟩, ⟨1, 1, 1, 1⟩] : List (Row ℝ)).set 0 ⟨1 / 2, 1 / 2, 0, 1⟩) none none =
            .ok qs ∧
        Gains ps qs 0) ∧
      ∃ ps p q, twoTags.choiceProbabilities twoNodes.getStateVector (some gpuJob) none = .ok ps ∧
        ps[0]? = some p ∧ ps[1]? = some q ∧ q ≤ p := by
  constructor
  · refine (selection_follows_traces sampleRouter (by norm_num [sampleRouter, Router.new]) none
      (by constructor <;> norm_num [weightsFor, sampleRouter, Router.new, Dict.getD])).1
      [⟨1 / 2, 1, 0, 1⟩, ⟨1, 1, 1, 1⟩] ?_ le_rfl 0 _ ⟨1 / 2, 1 / 2, 0, 1⟩ rfl
      (by constructor <;> norm_num) (by constructor <;> norm_num) (by norm_num)
    exact List.forall_mem_cons.mpr ⟨by constructor <;> norm_num,
      List.forall_mem_singleton.mpr (by constructor <;> norm_num)⟩
  · obtain ⟨ps, hps, hmono⟩ :=
      (selection_follows_traces twoTags (by norm_num [twoTags, Router.new]) none
        (by constructor <;> norm_num [weightsFor, twoTags, Router.new, Dict.getD])).2
        twoNodes twoNodes_consistent (by simp [twoNodes])
        (fun r hr => List.eq_of_mem_replicate hr ▸ Row.defaultState_inRange) rfl
        (some gpuJob) (by simp [gpuJob, Dict.values])
    have hmatch : computeCapabilityMatch (⟨"b", ["cpu"]⟩ : Worker) (some gpuJob) ≤
        computeCapabilityMatch (⟨"a", ["gpu"]⟩ : Worker) (some gpuJob) := by
      norm_num [computeCapabilityMatch, gpuJob, Dict.values]
    obtain ⟨p, q, hp, hq, hle⟩ :=
      hmono 0 1 Row.defaultState Row.defaultState _ _ rfl rfl rfl rfl
        ⟨le_rfl, le_rfl, le_rfl, le_rfl⟩ hmatch
    exact ⟨ps, p, q, hps, hp, hq, hle⟩

end Router

end StigmergicMesh
