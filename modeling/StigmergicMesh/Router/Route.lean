import StigmergicMesh.Field.FiniteMap
import StigmergicMesh.Router.Scores

/-!
# Routing one request

`route` on the in-memory field: sample a worker, execute the inference, deposit its trace. The
draw of the random generator and the way the worker's `execute_inference` ends are inputs.

The trace of a crash has latency zero and load zero. Whether it lowers the node's score is decided
by the row it meets: `crash_not_more_attractive_iff`.
-/

namespace StigmergicMesh

variable {K : Type*}

/-- The keys of an inference result that the router reads. -/
structure InferenceResult (K : Type*) where
  nodeId : String
  latencySec : K
  tokens : Json
  success : Bool
  activeLoad : Int

/-- How `execute_inference` ends. -/
inductive Outcome (K : Type*) where
  | returned (result : InferenceResult K)
  | raised

namespace Router

section Definitions

variable [Field K]

/-- The result recorded for a worker that raised. -/
def crashResult (worker : Worker) : InferenceResult K := ⟨worker.nodeId, 0, 0, false, 0⟩

def Outcome.result (worker : Worker) : Outcome K → InferenceResult K
  | .returned result => result
  | .raised => crashResult worker

variable [LinearOrder K]

/-- The product of two arrays, a single entry standing for an array of any length. -/
def broadcastMul (xs ys : List K) : Except FieldError (List K) :=
  if xs.length = ys.length then .ok (List.zipWith (· * ·) xs ys)
  else match xs, ys with
    | [x], ys => .ok (ys.map (x * ·))
    | xs, [y] => .ok (xs.map (· * y))
    | _, _ => .error (.valueError "operands could not be broadcast together")

/-- `scores * boosts`, if there is a capability context. -/
def boosted (router : Router K) (scores : List K)
    (capabilityContext : Option (Dict String K)) : Except FieldError (List K) :=
  match capabilityContext with
  | none => .ok scores
  | some context =>
    if context.entries.isEmpty then .ok scores
    else
      broadcastMul scores
        (router.workers.values.map (fun w => computeCapabilityMatch w (some context)))

/-- `sample_worker`, where the generator draws index `draw`. -/
def sampleWorker [Transcendental K] (router : Router K) (field : InMemoryField K)
    (capabilityContext weightsOverride : Option (Dict String K)) (draw : Nat) :
    Except FieldError Worker :=
  let scores := router.computeScores field.getStateVector weightsOverride
  match router.boosted scores capabilityContext with
  | .error e => .error e
  | .ok scores =>
    match router.computeProbabilities scores with
    | .error e => .error e
    | .ok probs =>
      if probs.length ≠ field.nodeIds.length then
        .error (.valueError "a and p must have same size")
      else
        match field.nodeIds[draw]? with
        | none => .error .indexError
        | some chosenId =>
          match router.workers.get? chosenId with
          | none => .error (.keyError chosenId)
          | some worker => .ok worker

/-- The trace that `route` deposits for a result. -/
def traceOf (worker : Worker) (capabilityContext : Option (Dict String K))
    (result : InferenceResult K) : Trace K :=
  ⟨result.latencySec, result.tokens, result.success, result.activeLoad,
    computeCapabilityMatch worker capabilityContext⟩

/-- The part of `route` after the inference: the deposit, then the result with its `routed_to`. -/
def finish (field : InMemoryField K) (worker : Worker)
    (capabilityContext : Option (Dict String K)) (result : InferenceResult K) :
    Except FieldError (InferenceResult K × String) × InMemoryField K :=
  match field.depositTrace result.nodeId (traceOf worker capabilityContext result) with
  | (.error e, field) => (.error e, field)
  | (.ok (), field) => (.ok (result, result.nodeId), field)

/-- `route`. -/
def route [Transcendental K] (router : Router K) (field : InMemoryField K)
    (capabilityContext weightsOverride : Option (Dict String K)) (draw : Nat)
    (outcome : Outcome K) :
    Except FieldError (InferenceResult K × String) × InMemoryField K :=
  match router.sampleWorker field capabilityContext weightsOverride draw with
  | .error e => (.error e, field)
  | .ok worker => finish field worker capabilityContext (Outcome.result worker outcome)

/-- The entry of `compute_scores` for a node. -/
def scoreOf (router : Router K) (weightsOverride : Option (Dict String K))
    (field : InMemoryField K) (nodeId : String) : Option K :=
  (field.nodeIndex.get? nodeId).bind
    (fun i => (router.computeScores field.getStateVector weightsOverride)[i]?)

/-- The node's score is no larger in the second field than in the first. -/
def NotMoreAttractive (router : Router K) (weightsOverride : Option (Dict String K))
    (before after : InMemoryField K) (nodeId : String) : Prop :=
  ∀ x y, router.scoreOf weightsOverride before nodeId = some x →
    router.scoreOf weightsOverride after nodeId = some y → y ≤ x

/-- The row is idle and instantaneous enough for a crash to lower its score: what the crash takes
from latency and saturation, and what the capability match adds, is covered by `_EPS`. -/
def CrashPenalised (w : Weights K) (capMatch : K) (r : Row K) : Prop :=
  w.delta * capMatch * (w.beta * r.L + w.gamma * r.S + eps) +
      w.gamma * r.S * (w.alpha * r.V + w.delta * r.C + eps + eps) + eps * (w.beta * r.L) ≤
    eps * (w.alpha * r.V + w.delta * r.C)

end Definitions

/-! ## The deposit of a request -/

variable [Field K]

theorem scoreOf_eq (router : Router K) (weightsOverride : Option (Dict String K))
    (field : InMemoryField K) (n : String) :
    router.scoreOf weightsOverride field n =
      (field.rowOf n).map (score (router.weightsFor weightsOverride)) := by
  cases hi : field.nodeIndex.get? n with
  | none => simp [scoreOf, InMemoryField.rowOf, hi]
  | some i =>
    simp [scoreOf, InMemoryField.rowOf, hi, computeScores, InMemoryField.getStateVector]

/-- A score for every node id. -/
theorem computeScores_length (router : Router K) {field : InMemoryField K} (hf : field.Consistent)
    (weightsOverride : Option (Dict String K)) :
    (router.computeScores field.getStateVector weightsOverride).length = field.nodeIds.length := by
  simp [computeScores, InMemoryField.getStateVector, hf.rows]

variable [LinearOrder K]

theorem finish_field (field : InMemoryField K) (worker : Worker)
    (capabilityContext : Option (Dict String K)) (result : InferenceResult K) :
    (finish field worker capabilityContext result).2 =
      (field.depositTrace result.nodeId (traceOf worker capabilityContext result)).2 := by
  simp only [finish]
  split <;> simp [*]

theorem route_field [Transcendental K] {router : Router K} {field : InMemoryField K}
    {capabilityContext weightsOverride : Option (Dict String K)} {draw : Nat} {worker : Worker}
    (h : router.sampleWorker field capabilityContext weightsOverride draw = .ok worker)
    (outcome : Outcome K) :
    (router.route field capabilityContext weightsOverride draw outcome).2 =
      (field.depositTrace (Outcome.result worker outcome).nodeId
        (traceOf worker capabilityContext (Outcome.result worker outcome))).2 := by
  simp only [route, h, finish_field]

/-- A sampled worker is the one registered under a node id of the field. -/
theorem sampleWorker_mem [Transcendental K] {router : Router K} {field : InMemoryField K}
    {capabilityContext weightsOverride : Option (Dict String K)} {draw : Nat} {worker : Worker}
    (h : router.sampleWorker field capabilityContext weightsOverride draw = .ok worker) :
    ∃ n ∈ field.nodeIds, router.workers.get? n = some worker := by
  simp only [sampleWorker] at h
  split at h
  · cases h
  · split at h
    · cases h
    · split at h
      · cases h
      · split at h
        · cases h
        · rename_i chosenId hid
          split at h
          · cases h
          · rename_i w hw
            obtain rfl := Except.ok.inj h
            exact ⟨chosenId, List.mem_of_getElem? hid, hw⟩

/-- The deposit of a result that names a tracked node succeeds. -/
theorem finish_of_known {field : InMemoryField K} (hf : field.Consistent) (worker : Worker)
    (capabilityContext : Option (Dict String K)) (result : InferenceResult K)
    (hn : result.nodeId ∈ field.nodeIds) :
    finish field worker capabilityContext result =
      (.ok (result, result.nodeId),
        (field.depositTrace result.nodeId (traceOf worker capabilityContext result)).2) := by
  have hok := (hf.depositTrace result.nodeId (traceOf worker capabilityContext result)).2.1
  rw [if_pos hn] at hok
  simp only [finish]
  split
  · rename_i e field' he
    rw [he] at hok
    cases hok
  · rename_i field' he
    rw [he]

/-! ## A crash -/

variable [IsStrictOrderedRing K]

/-- The row after the deposit of a crash. -/
theorem deposit_crash (scale : K) (worker : Worker) {context : Option (Dict String K)}
    (hc : ∀ d, context = some d → ∀ x ∈ d.values, 0 ≤ x) (r : Row K) :
    r.deposit scale (traceOf worker context (crashResult worker)) =
      ⟨r.V / 2, r.L / 2, 0, (computeCapabilityMatch worker context + r.C) / 2⟩ := by
  obtain ⟨h₀, h₁⟩ := computeCapabilityMatch_mem worker hc
  simp only [Row.deposit, traceOf, crashResult, Row.clampUnit_of_mem h₀ h₁, Row.ewma,
    Row.successVal, Row.mk.injEq, Bool.false_eq_true, if_false, Int.cast_zero, zero_mul, true_and]
  refine ⟨?_, ?_, ?_⟩ <;> ring

theorem score_crash_le_iff {w : Weights K} (hw : w.Nonneg) (capMatch : K) {r : Row K}
    (hr : r.InRange) :
    score w ⟨r.V / 2, r.L / 2, 0, (capMatch + r.C) / 2⟩ ≤ score w r ↔
      CrashPenalised w capMatch r := by
  have hbefore := scoreDenominator_pos hw hr.L_nonneg hr.S_nonneg
  have hafter : 0 < scoreDenominator w ⟨r.V / 2, r.L / 2, 0, (capMatch + r.C) / 2⟩ :=
    scoreDenominator_pos hw (div_nonneg hr.L_nonneg zero_le_two) le_rfl
  rw [score, score, div_le_div_iff₀ hafter hbefore]
  simp only [scoreNumerator, scoreDenominator, CrashPenalised]
  constructor <;> intro h <;> linarith

/-- The crash of a sampled worker as a step of its row. -/
theorem rowOf_route_raised [Transcendental K] {router : Router K} {field : InMemoryField K}
    (hf : field.Consistent) {context weightsOverride : Option (Dict String K)}
    (hc : ∀ d, context = some d → ∀ x ∈ d.values, 0 ≤ x) {draw : Nat} {worker : Worker}
    (hs : router.sampleWorker field context weightsOverride draw = .ok worker) {r : Row K}
    (hrow : field.rowOf worker.nodeId = some r) :
    (router.route field context weightsOverride draw .raised).2.rowOf worker.nodeId =
      some ⟨r.V / 2, r.L / 2, 0, (computeCapabilityMatch worker context + r.C) / 2⟩ := by
  rw [route_field hs]
  refine ((hf.depositTrace _ _).2.2.2 worker.nodeId).trans ((if_pos rfl).trans ?_)
  rw [hrow, Option.map_some]
  exact congrArg some (deposit_crash _ worker hc r)

/-- The score of a worker that crashes does not rise exactly when its row is penalised: a deposit
of latency zero and load zero makes a slow or loaded node more attractive. -/
theorem crash_not_more_attractive_iff [Transcendental K] (router : Router K)
    (weightsOverride : Option (Dict String K)) (hw : (router.weightsFor weightsOverride).Nonneg)
    (field : InMemoryField K) (hf : field.Consistent) (context : Option (Dict String K))
    (hc : ∀ d, context = some d → ∀ x ∈ d.values, 0 ≤ x) (draw : Nat) (worker : Worker)
    (hs : router.sampleWorker field context weightsOverride draw = .ok worker) (r : Row K)
    (hrow : field.rowOf worker.nodeId = some r) (hr : r.InRange) :
    router.NotMoreAttractive weightsOverride field
        (router.route field context weightsOverride draw .raised).2 worker.nodeId ↔
      CrashPenalised (router.weightsFor weightsOverride) (computeCapabilityMatch worker context)
        r := by
  simp only [NotMoreAttractive, scoreOf_eq, hrow, rowOf_route_raised hf hc hs hrow,
    Option.map_some, Option.some.injEq, ← score_crash_le_iff hw _ hr]
  constructor
  · exact fun h => h _ _ rfl rfl
  · rintro h _ _ rfl rfl
    exact h

/-! ## One worker -/

/-- A router with the default weights over one worker. -/
noncomputable def sampleRouter : Router ℝ :=
  .new ⟨[("a", ⟨"a", ["cpu"]⟩)], List.nodup_singleton _⟩ none none none

noncomputable def sampleField (r : Row ℝ) : InMemoryField ℝ :=
  ⟨["a"], Dict.enumerate ["a"], [r], 0.1, ⟨true, true⟩⟩

theorem sampleField_consistent (r : Row ℝ) : (sampleField r).Consistent :=
  (InMemoryField.consistent_new (List.nodup_singleton "a") (some [r]) rfl).1

theorem sampleRouter_samples (r : Row ℝ) :
    sampleRouter.sampleWorker (sampleField r) none none 0 = .ok ⟨"a", ["cpu"]⟩ := by
  simp [sampleWorker, boosted, computeProbabilities, computeScores, InMemoryField.getStateVector,
    sampleField, sampleRouter, Router.new, Dict.get?]

theorem sampleRouter_named : ∀ n w, sampleRouter.workers.get? n = some w → w.nodeId = n := by
  intro n w hw
  rw [Dict.get?_eq_some_iff] at hw
  obtain ⟨rfl, rfl⟩ := Prod.mk.inj (List.mem_singleton.mp hw)
  rfl

theorem sampleRouter_nonneg : (sampleRouter.weightsFor none).Nonneg := by
  refine ⟨?_, ?_, ?_, ?_⟩ <;>
    norm_num [weightsFor, sampleRouter, Router.new, Dict.getD]

/-- A node without latency and load loses score by a crash. -/
theorem crash_not_more_attractive_iff_idle :
    sampleRouter.NotMoreAttractive none (sampleField ⟨1, 0, 0, 1⟩)
      (sampleRouter.route (sampleField ⟨1, 0, 0, 1⟩) none none 0 .raised).2 "a" := by
  refine (crash_not_more_attractive_iff sampleRouter none sampleRouter_nonneg _
    (sampleField_consistent _) none (by simp) 0 ⟨"a", ["cpu"]⟩ (sampleRouter_samples _)
    ⟨1, 0, 0, 1⟩ rfl (by constructor <;> norm_num)).mpr ?_
  norm_num [CrashPenalised, computeCapabilityMatch, weightsFor, sampleRouter, Router.new,
    Dict.getD, eps]

/-- A crash raises the score of a node that is still at the baseline row. -/
theorem crash_at_baseline_attracts :
    ¬sampleRouter.NotMoreAttractive none (sampleField Row.defaultState)
      (sampleRouter.route (sampleField Row.defaultState) none none 0 .raised).2 "a" := by
  intro h
  have hrow := rowOf_route_raised (sampleField_consistent Row.defaultState) (by simp)
    (sampleRouter_samples Row.defaultState) rfl
  have hle := h _ _ ((scoreOf_eq ..).trans rfl) ((scoreOf_eq ..).trans (congrArg _ hrow))
  have hpenalised := (score_crash_le_iff sampleRouter_nonneg _ Row.defaultState_inRange).mp hle
  norm_num [CrashPenalised, computeCapabilityMatch, weightsFor, sampleRouter, Router.new,
    Dict.getD, Row.defaultState, eps] at hpenalised

end Router

end StigmergicMesh
