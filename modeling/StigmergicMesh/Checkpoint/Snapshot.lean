import StigmergicMesh.Checkpoint.Savers
import StigmergicMesh.Field.FiniteMap
import StigmergicMesh.Router.Scores

/-!
# From one field to another

`create_snapshot` pairs the ids of a field with its rows by position; `hydrate_from_snapshot` looks
the ids up in another field's own index. Together they are a merge: the nodes that both fields
track get the first field's rows, and nothing else changes.
-/

namespace StigmergicMesh

/-- `{"V": ..., "L": ..., "S": ..., "C": ...}` of a row. -/
def Row.metrics {K : Type*} (r : Row K) : Dict String K :=
  ⟨[("V", r.V), ("L", r.L), ("S", r.S), ("C", r.C)], by simp⟩

namespace Checkpoint

section Definitions

variable {K : Type*}

/-- The traces of one node's metrics, as `hydrate_from_snapshot` reads them. -/
def tracesOf (metrics : Dict String K) : Traces K :=
  ⟨metrics.get? "V", metrics.get? "L", metrics.get? "S", metrics.get? "C"⟩

/-- A checkpoint as the argument of `hydrate_from_snapshot`. -/
def MatrixSnapshot.toSnapshot (s : MatrixSnapshot K) : Snapshot K :=
  .matrixSnapshot (s.nodeMetrics.mapValues tracesOf)

variable [Field K] [LinearOrder K]

/-- `_compute_entropy_rate`, with NumPy's logarithm. -/
def computeEntropyRate [Transcendental K] (log : K → K) (routerAgent : Option (Router K))
    (state : List (Row K)) : K :=
  match routerAgent with
  | none => 0
  | some router =>
    if state.length < 1 then 0
    else
      match router.computeProbabilities (router.computeScores state none) with
      | .error _ => 0
      | .ok probs => -(probs.map (fun p => p * log (p + 1e-12))).sum

/-- `create_snapshot`. -/
def createSnapshot [Transcendental K] (log : K → K) (memoryField : Option (InMemoryField K))
    (routerAgent : Option (Router K)) (time : K) (totalRoutedRequests : Int) :
    Except String (MatrixSnapshot K) :=
  match memoryField with
  | none => .error "CheckpointManager requires a memory_field to create snapshots"
  | some field =>
    let state := field.getStateVector
    let nodeMetrics := Dict.ofList (field.nodeIds.zip (state.map Row.metrics))
    .ok (Capture.at ⟨nodeMetrics, computeEntropyRate log routerAgent state, totalRoutedRequests⟩
      time)

end Definitions

/-! ## The merge -/

variable {K : Type*}

@[simp] theorem tracesOf_metrics (r : Row K) : tracesOf r.metrics = r.traces := rfl

/-- All four traces of another row replace the row. -/
theorem overlay_traces [Field K] (r r' : Row K) : r'.overlay r.traces = r := rfl

variable [Field K] [LinearOrder K]

/-- What hydration finds in a snapshot of a field: every id with its row. -/
theorem createSnapshot_nodeMetrics [Transcendental K] (log : K → K) {field : InMemoryField K}
    (hf : field.Indexed) (hne : field.nodeIds ≠ []) (routerAgent : Option (Router K)) (time : K)
    (totalRoutedRequests : Int) :
    ∃ s m, createSnapshot log (some field) routerAgent time totalRoutedRequests = .ok s ∧
      s.toSnapshot.nodeMetrics = .ok m ∧ ∀ n, m.get? n = (field.rowOf n).map Row.traces := by
  set metrics := Dict.ofList (field.nodeIds.zip (field.state.map Row.metrics)) with hmetrics
  have hget : ∀ n, (metrics.mapValues tracesOf).get? n = (field.rowOf n).map Row.traces := by
    intro n
    rw [Dict.get?_mapValues, hmetrics, Dict.get?_ofList_zip_enumerate (by simp [hf.rows]),
      ← hf.index, InMemoryField.rowOf]
    cases field.nodeIndex.get? n with
    | none => rfl
    | some i =>
      simp only [Option.bind_some, List.getElem?_map, Option.map_map, Function.comp_def,
        tracesOf_metrics]
  have hnonempty : (metrics.mapValues tracesOf).entries ≠ [] := by
    intro hempty
    obtain ⟨n, hn⟩ := List.exists_mem_of_ne_nil _ hne
    have hsome := (hf.rowOf_isSome n).mpr hn
    have hnone : (metrics.mapValues tracesOf).get? n = none := by simp [Dict.get?, hempty]
    rw [hget] at hnone
    rw [Option.map_eq_none_iff.mp hnone] at hsome
    cases hsome
  refine ⟨_, metrics.mapValues tracesOf, rfl, ?_, hget⟩
  show Snapshot.nodeMetrics (.matrixSnapshot (metrics.mapValues tracesOf)) = _
  simp only [Snapshot.nodeMetrics, List.isEmpty_iff, if_neg hnonempty]

/-- A snapshot of one field hydrates another: it counts the common ids and gives them the first
field's rows, changes nothing else, and to do it again changes nothing. -/
theorem hydrate_createSnapshot [Transcendental K] (log : K → K) (a b : InMemoryField K)
    (ha : a.Indexed) (hb : b.Indexed) (hne : a.nodeIds ≠ []) (routerAgent : Option (Router K))
    (time : K) (totalRoutedRequests : Int) :
    ∃ s, createSnapshot log (some a) routerAgent time totalRoutedRequests = .ok s ∧
      ∃ after, b.hydrateFromSnapshot Except.ok s.toSnapshot =
          (.ok (a.nodeIds.dedup.filter (· ∈ b.nodeIds)).length, after) ∧
        (∀ n ∈ a.nodeIds, n ∈ b.nodeIds → after.rowOf n = a.rowOf n) ∧
        (∀ n, n ∉ a.nodeIds → after.rowOf n = b.rowOf n) ∧
        after.nodeIds = b.nodeIds ∧ after.nodeIndex = b.nodeIndex ∧
        (after.hydrateFromSnapshot Except.ok s.toSnapshot).2 = after := by
  obtain ⟨s, m, hs, hm, hget⟩ :=
    createSnapshot_nodeMetrics log ha hne routerAgent time totalRoutedRequests
  obtain ⟨hcount, hrow⟩ := hb.hydrateFromSnapshot hm
  have hrowsOnly := b.hydrateFromSnapshot_rowsOnly Except.ok s.toSnapshot
  have hkeys : m.keys.Perm a.nodeIds.dedup := by
    refine (List.perm_ext_iff_of_nodup m.nodupKeys a.nodeIds.nodup_dedup).mpr fun n => ?_
    show n ∈ m.keys ↔ n ∈ a.nodeIds.dedup
    rw [m.mem_keys_iff, hget, Option.isSome_map, ha.rowOf_isSome, List.mem_dedup]
  rw [(hkeys.filter _).length_eq] at hcount
  set after := (b.hydrateFromSnapshot Except.ok s.toSnapshot).2
  have hcommon : ∀ n ∈ a.nodeIds, n ∈ b.nodeIds → after.rowOf n = a.rowOf n := by
    intro n hna hnb
    obtain ⟨r, hr⟩ := Option.isSome_iff_exists.mp ((ha.rowOf_isSome n).mpr hna)
    obtain ⟨r', hr'⟩ := Option.isSome_iff_exists.mp ((hb.rowOf_isSome n).mpr hnb)
    rw [hrow n, hget, hr, hr']
    exact congrArg some (overlay_traces r r')
  refine ⟨s, hs, after, Prod.ext hcount rfl, hcommon, fun n hn => ?_, hrowsOnly.nodeIds, ?_, ?_⟩
  · have hnone : a.rowOf n = none := by
      rw [← Option.not_isSome_iff_eq_none, ha.rowOf_isSome]
      exact hn
    rw [hrow n, hget, hnone]
    rfl
  · obtain ⟨rows, -, hrows⟩ := hrowsOnly
    rw [hrows]
  · -- Every row that the snapshot would write is there already.
    simp only [InMemoryField.hydrateFromSnapshot, hm]
    apply (hrowsOnly.indexed hb).hydrateLoop_of_held
    intro p hp r hr
    have hp' := (Dict.get?_eq_some_iff m p.1 p.2).mpr hp
    rw [hget] at hp'
    obtain ⟨r', hr', htraces⟩ := Option.map_eq_some_iff.mp hp'
    have hna : p.1 ∈ a.nodeIds := (ha.rowOf_isSome p.1).mp (by rw [hr']; rfl)
    have hnb : p.1 ∈ b.nodeIds := by
      rw [← hrowsOnly.nodeIds, ← (hrowsOnly.indexed hb).rowOf_isSome, hr]
      rfl
    have hsame : r = r' := by
      rw [hcommon p.1 hna hnb, hr'] at hr
      exact (Option.some.inj hr).symm
    rw [← htraces, hsame]
    exact overlay_traces r' r'

/-- A field that has learned about two nodes. -/
noncomputable def learned : InMemoryField ℝ :=
  ⟨["b", "c"], Dict.enumerate ["b", "c"], [⟨0.5, 0.7, 1, 0⟩, ⟨1, 0.3, 0, 1⟩], 0.1, ⟨true, true⟩⟩

/-- A fresh field that shares one of them. -/
noncomputable def fresh : InMemoryField ℝ :=
  ⟨["a", "b"], Dict.enumerate ["a", "b"], List.replicate 2 Row.defaultState, 0.1, ⟨true, true⟩⟩

theorem hydrate_createSnapshot_overlap :
    ∃ s after, createSnapshot Real.log (some learned) none 100 7 = .ok s ∧
      fresh.hydrateFromSnapshot Except.ok s.toSnapshot = (.ok 1, after) ∧
      after.rowOf "b" = some ⟨0.5, 0.7, 1, 0⟩ ∧ after.rowOf "a" = some Row.defaultState := by
  obtain ⟨s, hs, after, hafter, hcommon, hother, -⟩ := hydrate_createSnapshot Real.log learned fresh
    ⟨fun _ => rfl, rfl⟩ ⟨fun _ => rfl, rfl⟩ (List.cons_ne_nil "b" ["c"]) none 100 7
  exact ⟨s, after, hs, hafter, (hcommon "b" (by simp [learned]) (by simp [fresh])).trans rfl,
    (hother "a" (by simp [learned])).trans rfl⟩

end Checkpoint

end StigmergicMesh
