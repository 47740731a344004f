import StigmergicMesh.Library.Differences
import StigmergicMesh.Router.Scores

/-!
# The entropy signal

`update_prometheus_metrics` copies the matrix into gauges and adds to the counter the autoscaler
follows. What it adds is the size of the summed differences of neighbouring success traces, and
that is the distance of the last node's trace from the first's.
-/

namespace StigmergicMesh.Metrics

open Differences

/-- The series that are written; a gauge has one value per `node_id`. -/
structure Series (K : Type*) where
  nodeSuccessTrace : Dict String K
  nodeLatencyTrace : Dict String K
  nodeSaturationTrace : Dict String K
  nodeCapabilityTrace : Dict String K
  nodeAttractionScore : Dict String K
  entropyRateTotal : K

/-- What the `except` clause catches. -/
inductive ScrapeError where
  | indexError
  /-- `StigmergicRouterAgent` has no method `active_swarm_size`. -/
  | attributeError
  deriving DecidableEq, Repr

variable {K : Type*} [Field K]

/-- The four `labels(node_id=nid).set(...)`. -/
def Series.setTraces (m : Series K) (nid : String) (r : Row K) : Series K :=
  { m with
    nodeSuccessTrace := m.nodeSuccessTrace.set nid r.V
    nodeLatencyTrace := m.nodeLatencyTrace.set nid r.L
    nodeSaturationTrace := m.nodeSaturationTrace.set nid r.S
    nodeCapabilityTrace := m.nodeCapabilityTrace.set nid r.C }

/-- The loop over the node ids, from index `i` on. -/
def syncNodes (routerAgent : Option (Router K)) (state : List (Row K)) :
    List String → Nat → Series K → Except ScrapeError Unit × Series K
  | [], _, m => (.ok (), m)
  | nid :: nodeIds, i, m =>
    match state[i]? with
    | none => (.error .indexError, m)
    | some row =>
      match routerAgent with
      | none => syncNodes routerAgent state nodeIds (i + 1) (m.setTraces nid row)
      | some router =>
        match (router.computeScores state none)[i]? with
        | none => (.error .indexError, m.setTraces nid row)
        | some score =>
          syncNodes routerAgent state nodeIds (i + 1)
            { m.setTraces nid row with
              nodeAttractionScore := m.nodeAttractionScore.set nid score }

variable [LinearOrder K]

def entropyDelta (state : List (Row K)) (nodeIds : List String) : K :=
  if 1 < nodeIds.length then |(diff (state.map (·.V))).sum| else 0

/-- The `try` block; the gauge of mesh routes is not reached, as the call before it raises. -/
def syncMetrics (state : List (Row K)) (nodeIds : List String)
    (routerAgent : Option (Router K)) (m : Series K) : Except ScrapeError Unit × Series K :=
  match syncNodes routerAgent state nodeIds 0 m with
  | (.error e, m) => (.error e, m)
  | (.ok (), m) =>
    match routerAgent with
    | none => (.ok (), m)
    | some _ =>
      (.error .attributeError,
        { m with entropyRateTotal := m.entropyRateTotal + entropyDelta state nodeIds })

/-- `update_prometheus_metrics`, on what the memory field answers; an exception is only logged. -/
def updatePrometheusMetrics (state : List (Row K)) (nodeIds : List String)
    (routerAgent : Option (Router K)) (m : Series K) : Series K :=
  (syncMetrics state nodeIds routerAgent m).2

/-! ## The increment -/

/-- What the nodes of a field add to the counter. -/
def increment (router : Router K) (m : Series K) (nodes : List (String × Row K)) : K :=
  (updatePrometheusMetrics (nodes.map Prod.snd) (nodes.map Prod.fst) (some router)
    m).entropyRateTotal - m.entropyRateTotal

omit [LinearOrder K] in
/-- The loop finds a row and a score for every id, and leaves the counter alone. -/
theorem syncNodes_spec (router : Router K) (state : List (Row K)) (nodeIds : List String) (i : ℕ)
    (m : Series K) (hi : i + nodeIds.length ≤ state.length) :
    (syncNodes (some router) state nodeIds i m).1 = .ok () ∧
      (syncNodes (some router) state nodeIds i m).2.entropyRateTotal = m.entropyRateTotal := by
  induction nodeIds generalizing i m with
  | nil => exact ⟨rfl, rfl⟩
  | cons nid nodeIds ih =>
    rw [List.length_cons] at hi
    have hrow : state[i]? = some state[i] := List.getElem?_eq_getElem (by omega)
    have hscore : (router.computeScores state none)[i]? =
        some (Router.score (router.weightsFor none) state[i]) := by
      simp [Router.computeScores, hrow]
    simp only [syncNodes, hrow, hscore]
    obtain ⟨hok, htotal⟩ := ih (i + 1) { m.setTraces nid state[i] with
      nodeAttractionScore := m.nodeAttractionScore.set nid _ } (by omega)
    exact ⟨hok, htotal⟩

theorem entropyDelta_eq_drift [IsStrictOrderedRing K] (nodes : List (String × Row K)) :
    entropyDelta (nodes.map Prod.snd) (nodes.map Prod.fst) = drift (fun p => p.2.V) nodes := by
  rw [entropyDelta, drift, List.length_map, List.map_map]
  by_cases hlen : 1 < nodes.length
  · rw [if_pos hlen]
    rfl
  · -- A single node has no differences, so the guard only spares the sum.
    rw [if_neg hlen]
    rcases nodes with _ | ⟨p, _ | ⟨q, nodes⟩⟩
    · simp [diff]
    · simp [diff]
    · exact absurd (by simp) hlen

/-- What is added is the sum of differences, whatever the counter and the gauges have been. -/
theorem increment_eq_drift [IsStrictOrderedRing K] (router : Router K) (m : Series K)
    (nodes : List (String × Row K)) :
    increment router m nodes = drift (fun p => p.2.V) nodes := by
  obtain ⟨hok, htotal⟩ := syncNodes_spec router (nodes.map Prod.snd) (nodes.map Prod.fst) 0 m
    (by simp)
  rw [increment, updatePrometheusMetrics, syncMetrics]
  cases hs : syncNodes (some router) (nodes.map Prod.snd) (nodes.map Prod.fst) 0 m with
  | mk result m' =>
    rw [hs] at hok htotal
    obtain rfl : result = .ok () := hok
    have hm : m'.entropyRateTotal = m.entropyRateTotal := htotal
    simp only [hm, add_sub_cancel_left, entropyDelta_eq_drift]

/-- The purpose of the signal: it does not depend on the order in which a field lists its nodes,
and is zero only where they agree. -/
structure MeasuresDisagreement (router : Router K) (m : Series K)
    (nodes : List (String × Row K)) : Prop where
  perm : ∀ nodes', nodes'.Perm nodes → increment router m nodes' = increment router m nodes
  zero : increment router m nodes = 0 → ∀ p ∈ nodes, ∀ q ∈ nodes, p.2.V = q.2.V

/-- It measures disagreement exactly for at most two nodes, and where all success traces are
equal. -/
theorem entropy_measures_disagreement_iff [IsStrictOrderedRing K] (router : Router K)
    (m : Series K) (nodes : List (String × Row K)) :
    MeasuresDisagreement router m nodes ↔
      nodes.length ≤ 2 ∨ ∀ p ∈ nodes, ∀ q ∈ nodes, p.2.V = q.2.V := by
  constructor
  · intro h
    refine (orderFree_iff (fun p : String × Row K => p.2.V) nodes).mp fun nodes' hperm => ?_
    rw [← increment_eq_drift router m, ← increment_eq_drift router m]
    exact h.perm nodes' hperm
  · intro h
    refine ⟨fun nodes' hperm => ?_, fun hzero => ?_⟩
    · rw [increment_eq_drift, increment_eq_drift]
      exact (orderFree_iff _ nodes).mpr h nodes' hperm
    · rw [increment_eq_drift] at hzero
      rcases h with hlen | hall
      · exact eq_of_drift_eq_zero hlen hzero
      · exact hall

/-- Two nodes, of which one succeeds. -/
theorem entropy_measures_disagreement_of_two :
    MeasuresDisagreement (Router.new Dict.empty none none none)
      (⟨Dict.empty, Dict.empty, Dict.empty, Dict.empty, Dict.empty, 0⟩ : Series ℚ)
      [("a", ⟨0, 0, 0, 0⟩), ("b", ⟨1, 0, 0, 0⟩)] :=
  (entropy_measures_disagreement_iff _ _ _).mpr (Or.inl le_rfl)

/-- Of three nodes only the middle one succeeds: nothing is added, and one if it comes first. -/
theorem entropy_ignores_middle_node :
    ¬MeasuresDisagreement (Router.new Dict.empty none none none)
      (⟨Dict.empty, Dict.empty, Dict.empty, Dict.empty, Dict.empty, 0⟩ : Series ℚ)
      [("a", ⟨0, 0, 0, 0⟩), ("b", ⟨1, 0, 0, 0⟩), ("c", ⟨0, 0, 0, 0⟩)] := by
  intro h
  have hfirst := h.perm [("b", ⟨1, 0, 0, 0⟩), ("a", ⟨0, 0, 0, 0⟩), ("c", ⟨0, 0, 0, 0⟩)]
    (List.Perm.swap ..)
  rw [increment_eq_drift, increment_eq_drift] at hfirst
  norm_num [drift, diff] at hfirst

end StigmergicMesh.Metrics
