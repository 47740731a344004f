import StigmergicMesh.Library.Run
import StigmergicMesh.Router.Route

/-!
# Concurrent requests on the in-memory field

Any number of `route` calls, named by numbers, run in one event loop with the decay engine. A
call is suspended while its worker executes, so it is three steps: sampling, the end of the
inference, the deposit; the field's lock makes each access to the field one step.

`concurrent_routing_serialisable`: the field after a run is the field after the deposits of the
completed requests, each once and on the row of its own worker, and the ticks, executed one after
the other in the order in which they happened.
-/

namespace StigmergicMesh

variable {K : Type*}

/-- Where a call of `route` stands. -/
inductive Phase (K : Type*) where
  | executing (worker : Worker) (context : Option (Dict String K))
  | executed (worker : Worker) (context : Option (Dict String K)) (result : InferenceResult K)
  | completed (worker : Worker) (context : Option (Dict String K)) (result : InferenceResult K)
  | failed (error : FieldError)

/-- The field and the calls that have started. -/
structure Mesh (K : Type*) where
  field : InMemoryField K
  requests : Nat → Option (Phase K)

inductive MeshEvent (K : Type*) where
  | sample (rid : Nat) (context weightsOverride : Option (Dict String K)) (draw : Nat)
  | finish (rid : Nat) (outcome : Outcome K)
  | deposit (rid : Nat)
  | tick (decayRate : K)

namespace Mesh

open Router

section Definitions

variable [Field K] [LinearOrder K]

def start (field : InMemoryField K) : Mesh K := ⟨field, fun _ => none⟩

def setPhase (m : Mesh K) (rid : Nat) (p : Phase K) : Mesh K :=
  { m with requests := Function.update m.requests rid (some p) }

/-- One step of the event loop. -/
def step [Transcendental K] (router : Router K) (m : Mesh K) : MeshEvent K → Option (Mesh K)
  | .sample rid context weightsOverride draw =>
    match m.requests rid with
    | some _ => none
    | none =>
      match router.sampleWorker m.field context weightsOverride draw with
      | .error e => some (m.setPhase rid (.failed e))
      | .ok worker => some (m.setPhase rid (.executing worker context))
  | .finish rid outcome =>
    match m.requests rid with
    | some (.executing worker context) =>
      some (m.setPhase rid (.executed worker context (Outcome.result worker outcome)))
    | _ => none
  | .deposit rid =>
    match m.requests rid with
    | some (.executed worker context result) =>
      match Router.finish m.field worker context result with
      | (.error e, field) => some ({ m with field := field }.setPhase rid (.failed e))
      | (.ok _, field) =>
        some ({ m with field := field }.setPhase rid (.completed worker context result))
    | _ => none
  | .tick decayRate => some { m with field := (m.field.applyEvaporation decayRate).2 }

/-- The requests that deposited, in the order in which they did. -/
def completions (es : List (MeshEvent K)) : List Nat :=
  es.filterMap fun
    | .deposit rid => some rid
    | _ => none

/-- The serial call that an event stands for: the deposit of a completed request on the node of
its worker, or the tick. -/
def serialOp (requests : Nat → Option (Phase K)) : MeshEvent K → Option (InMemoryField.Op K)
  | .deposit rid =>
    match requests rid with
    | some (.completed worker context result) =>
      some (.depositTrace worker.nodeId (traceOf worker context result))
    | _ => none
  | .tick decayRate => some (.applyEvaporation decayRate)
  | _ => none

def serialOps (requests : Nat → Option (Phase K)) (es : List (MeshEvent K)) :
    List (InMemoryField.Op K) :=
  es.filterMap (serialOp requests)

/-- A result that a worker returns carries the worker's own node id. -/
def CarriesNodeId (m : Mesh K) : MeshEvent K → Prop
  | .finish rid (.returned result) =>
    ∀ worker context, m.requests rid = some (.executing worker context) →
      result.nodeId = worker.nodeId
  | _ => True

/-- The worker that a request of the run was given. -/
def Sampled [Transcendental K] (router : Router K) (field : InMemoryField K)
    (es : List (MeshEvent K)) (rid : Nat) (worker : Worker)
    (context : Option (Dict String K)) : Prop :=
  ∃ pre weightsOverride draw post m,
    es = pre ++ .sample rid context weightsOverride draw :: post ∧
      Run.execAll (step router) (start field) pre = some m ∧
      router.sampleWorker m.field context weightsOverride draw = .ok worker

/-- The result with which the worker of a request of the run ended. -/
def Ended (es : List (MeshEvent K)) (rid : Nat) (worker : Worker) (result : InferenceResult K) :
    Prop :=
  ∃ outcome, MeshEvent.finish rid outcome ∈ es ∧ result = Outcome.result worker outcome

/-- How a request got to its phase. -/
def Origin [Transcendental K] (router : Router K) (field : InMemoryField K)
    (es : List (MeshEvent K)) (rid : Nat) : Phase K → Prop
  | .executing worker context =>
    worker.nodeId ∈ field.nodeIds ∧ Sampled router field es rid worker context
  | .executed worker context result | .completed worker context result =>
    worker.nodeId ∈ field.nodeIds ∧ Sampled router field es rid worker context ∧
      Ended es rid worker result ∧ result.nodeId = worker.nodeId
  | .failed _ => True

/-- The invariant of a run over the fixed membership of `field`. -/
structure Invariant [Transcendental K] (router : Router K) (field : InMemoryField K)
    (es : List (MeshEvent K)) (m : Mesh K) : Prop where
  nodeIds : m.field.nodeIds = field.nodeIds
  serial : m.field = field.run (serialOps m.requests es)
  nodup : (completions es).Nodup
  completed : ∀ rid, rid ∈ completions es ↔
    ∃ worker context result, m.requests rid = some (.completed worker context result)
  origin : ∀ rid p, m.requests rid = some p → Origin router field es rid p

end Definitions

/-! ## Lists of events -/

theorem completions_snoc (es : List (MeshEvent K)) (e : MeshEvent K) :
    completions (es ++ [e]) = completions es ++ completions [e] :=
  List.filterMap_append

theorem setPhase_requests (m : Mesh K) (rid r : Nat) (p : Phase K) :
    (m.setPhase rid p).requests r = if r = rid then some p else m.requests r := by
  simp [setPhase, Function.update_apply]

variable [Field K] [LinearOrder K]

theorem serialOps_snoc (requests : Nat → Option (Phase K)) (es : List (MeshEvent K))
    (e : MeshEvent K) :
    serialOps requests (es ++ [e]) = serialOps requests es ++ serialOps requests [e] :=
  List.filterMap_append

/-- The serial calls look at the requests that deposited only. -/
theorem serialOps_congr {requests requests' : Nat → Option (Phase K)} {es : List (MeshEvent K)}
    (h : ∀ rid ∈ completions es, requests' rid = requests rid) :
    serialOps requests' es = serialOps requests es := by
  refine List.filterMap_congr fun e he => ?_
  cases e with
  | deposit rid =>
    have hrid : rid ∈ completions es := List.mem_filterMap.mpr ⟨_, he, rfl⟩
    simp only [serialOp, h rid hrid]
  | _ => rfl

theorem serialOps_fixesMembership (requests : Nat → Option (Phase K))
    (es : List (MeshEvent K)) : ∀ op ∈ serialOps requests es, op.FixesMembership := by
  intro op hop
  obtain ⟨e, -, he⟩ := List.mem_filterMap.mp hop
  cases e with
  | deposit rid =>
    simp only [serialOp] at he
    split at he <;> cases he
    trivial
  | tick rate =>
    obtain rfl := Option.some.inj he
    trivial
  | sample | finish => cases he

variable [Transcendental K]

/-! ## Origins -/

theorem Sampled.snoc {router : Router K} {field : InMemoryField K} {es : List (MeshEvent K)}
    {rid : Nat} {worker : Worker} {context : Option (Dict String K)}
    (h : Sampled router field es rid worker context) (e : MeshEvent K) :
    Sampled router field (es ++ [e]) rid worker context := by
  obtain ⟨pre, o, draw, post, m, rfl, hm, hs⟩ := h
  exact ⟨pre, o, draw, post ++ [e], m, by simp, hm, hs⟩

omit [LinearOrder K] [Transcendental K] in
theorem Ended.snoc {es : List (MeshEvent K)} {rid : Nat} {worker : Worker}
    {result : InferenceResult K} (h : Ended es rid worker result) (e : MeshEvent K) :
    Ended (es ++ [e]) rid worker result := by
  obtain ⟨outcome, he, hr⟩ := h
  exact ⟨outcome, List.mem_append_left _ he, hr⟩

theorem Origin.snoc {router : Router K} {field : InMemoryField K} {es : List (MeshEvent K)}
    {rid : Nat} {p : Phase K} (h : Origin router field es rid p) (e : MeshEvent K) :
    Origin router field (es ++ [e]) rid p := by
  cases p with
  | executing worker context => exact ⟨h.1, h.2.snoc e⟩
  | executed worker context result => exact ⟨h.1, h.2.1.snoc e, h.2.2.1.snoc e, h.2.2.2⟩
  | completed worker context result => exact ⟨h.1, h.2.1.snoc e, h.2.2.1.snoc e, h.2.2.2⟩
  | failed => trivial

/-! ## One step -/

/-- One request moves to a new phase, the others stay in theirs. -/
theorem Invariant.origin_update {router : Router K} {field : InMemoryField K}
    {es : List (MeshEvent K)} {m : Mesh K} (h : Invariant router field es m) {e : MeshEvent K}
    {rid : Nat} {p : Phase K} (hp : Origin router field (es ++ [e]) rid p) (r : Nat)
    (q : Phase K) (hq : Function.update m.requests rid (some p) r = some q) :
    Origin router field (es ++ [e]) r q := by
  by_cases hr : r = rid
  · subst hr
    rw [Function.update_self, Option.some.injEq] at hq
    exact hq ▸ hp
  · rw [Function.update_of_ne hr] at hq
    exact (h.origin r q hq).snoc e

/-- A step of a request that deposits nothing: the request moves to a phase that is not the
completed one. -/
theorem Invariant.setPhase {router : Router K} {field : InMemoryField K}
    {es : List (MeshEvent K)} {m : Mesh K} (h : Invariant router field es m) {e : MeshEvent K}
    (hc : completions [e] = []) (ho : ∀ requests, serialOps requests [e] = [])
    {rid : Nat} {p : Phase K}
    (hold : ∀ worker context result, m.requests rid ≠ some (.completed worker context result))
    (hnew : ∀ worker context result, p ≠ .completed worker context result)
    (hp : Origin router field (es ++ [e]) rid p) :
    Invariant router field (es ++ [e]) (m.setPhase rid p) := by
  have hne : ∀ r ∈ completions es, r ≠ rid := by
    rintro r hr rfl
    obtain ⟨w, c, res, hreq⟩ := (h.completed r).mp hr
    exact hold w c res hreq
  refine ⟨h.nodeIds, ?_, ?_, fun r => ?_, h.origin_update hp⟩
  · rw [serialOps_snoc, ho, List.append_nil]
    refine h.serial.trans (congrArg field.run (serialOps_congr fun r hr => ?_)).symm
    rw [setPhase_requests, if_neg (hne r hr)]
  · rw [completions_snoc, hc, List.append_nil]
    exact h.nodup
  · rw [completions_snoc, hc, List.append_nil, h.completed, setPhase_requests]
    by_cases hr : r = rid
    · subst hr
      simp [hold, hnew]
    · rw [if_neg hr]

/-- The deposit of a request whose worker is tracked: one more serial call. -/
theorem Invariant.deposit {router : Router K} {field : InMemoryField K}
    {es : List (MeshEvent K)} {m : Mesh K} (h : Invariant router field es m) {rid : Nat}
    {worker : Worker} {context : Option (Dict String K)} {result : InferenceResult K}
    (hreq : m.requests rid = some (.executed worker context result)) :
    Invariant router field (es ++ [.deposit rid])
      ({ m with
          field := (m.field.depositTrace worker.nodeId (traceOf worker context result)).2 }.setPhase
        rid (.completed worker context result)) := by
  have hfresh : rid ∉ completions es := by
    intro hr
    obtain ⟨w, c, res, hcompleted⟩ := (h.completed rid).mp hr
    rw [hreq] at hcompleted
    cases hcompleted
  have hlast : completions (es ++ [.deposit rid]) = completions es ++ [rid] := completions_snoc ..
  have horigin : Origin router field (es ++ [.deposit rid]) rid
      (.completed worker context result) :=
    (h.origin rid _ hreq).snoc _
  refine ⟨?_, ?_, ?_, fun r => ?_, h.origin_update horigin⟩
  · exact (m.field.depositTrace_rowsOnly _ _).nodeIds.trans h.nodeIds
  · have hearlier : serialOps (Function.update m.requests rid
        (some (.completed worker context result))) es = serialOps m.requests es :=
      serialOps_congr fun r hr => Function.update_of_ne (by rintro rfl; exact hfresh hr) _ _
    have hdeposit : serialOps (Function.update m.requests rid
        (some (.completed worker context result))) [MeshEvent.deposit rid] =
        [.depositTrace worker.nodeId (traceOf worker context result)] := by
      simp [serialOps, serialOp]
    simp only [Mesh.setPhase]
    rw [serialOps_snoc, hearlier, hdeposit, InMemoryField.run_snoc, ← h.serial]
    rfl
  · rw [hlast]
    exact h.nodup.append (List.nodup_singleton rid) (by simpa using hfresh)
  · rw [hlast, List.mem_append, List.mem_singleton, setPhase_requests, h.completed]
    by_cases hr : r = rid
    · simp [hr]
    · simp [hr]

theorem Invariant.tick {router : Router K} {field : InMemoryField K} {es : List (MeshEvent K)}
    {m : Mesh K} (h : Invariant router field es m) (rate : K) :
    Invariant router field (es ++ [.tick rate])
      { m with field := (m.field.applyEvaporation rate).2 } := by
  have hlast : completions (es ++ [.tick rate]) = completions es :=
    (completions_snoc ..).trans (List.append_nil _)
  refine ⟨?_, ?_, hlast ▸ h.nodup, fun r => hlast ▸ h.completed r,
    fun r q hq => (h.origin r q hq).snoc _⟩
  · exact (m.field.applyEvaporation_rowsOnly rate).nodeIds.trans h.nodeIds
  · have htick : serialOps m.requests [MeshEvent.tick rate] = [.applyEvaporation rate] := rfl
    rw [serialOps_snoc, htick, InMemoryField.run_snoc, ← h.serial]
    rfl

/-- Every step keeps the invariant. -/
theorem Invariant.step {router : Router K}
    (hnamed : ∀ n w, router.workers.get? n = some w → w.nodeId = n) {field : InMemoryField K}
    (hf : field.Consistent) {es : List (MeshEvent K)} {m m' : Mesh K} {e : MeshEvent K}
    (hrun : Run.execAll (Mesh.step router) (start field) es = some m)
    (h : Invariant router field es m) (hcarries : CarriesNodeId m e)
    (hstep : Mesh.step router m e = some m') : Invariant router field (es ++ [e]) m' := by
  cases e with
  | sample rid context weightsOverride draw =>
    cases hreq : m.requests rid with
    | some p => simp [Mesh.step, hreq] at hstep
    | none =>
      cases hs : router.sampleWorker m.field context weightsOverride draw with
      | error err =>
        simp only [Mesh.step, hreq, hs, Option.some.injEq] at hstep
        subst hstep
        exact h.setPhase rfl (fun _ => rfl) (by simp [hreq]) (by simp) trivial
      | ok worker =>
        simp only [Mesh.step, hreq, hs, Option.some.injEq] at hstep
        subst hstep
        obtain ⟨n, hn, hw⟩ := sampleWorker_mem hs
        refine h.setPhase rfl (fun _ => rfl) (by simp [hreq]) (by simp) ⟨?_, ?_⟩
        · rw [hnamed n worker hw, ← h.nodeIds]
          exact hn
        · exact ⟨es, weightsOverride, draw, [], m, rfl, hrun, hs⟩
  | finish rid outcome =>
    simp only [Mesh.step] at hstep
    split at hstep
    · rename_i worker context hreq
      obtain rfl := Option.some.inj hstep
      obtain ⟨hn, hsampled⟩ := h.origin rid _ hreq
      refine h.setPhase rfl (fun _ => rfl) (by simp [hreq]) (by simp)
        ⟨hn, hsampled.snoc _, ⟨outcome, by simp, rfl⟩, ?_⟩
      cases outcome with
      | returned result => exact hcarries worker context hreq
      | raised => rfl
    · cases hstep
  | deposit rid =>
    simp only [Mesh.step] at hstep
    split at hstep
    · rename_i worker context result hreq
      obtain ⟨hn, -, -, hid⟩ := h.origin rid _ hreq
      have hc : m.field.Consistent := by
        rw [h.serial]
        exact (hf.run _).1
      rw [finish_of_known hc worker context result (by rw [hid, h.nodeIds]; exact hn), hid] at hstep
      obtain rfl := Option.some.inj hstep
      exact h.deposit hreq
    · cases hstep
  | tick rate =>
    obtain rfl := Option.some.inj hstep
    exact h.tick rate

theorem Invariant.of_run {router : Router K}
    (hnamed : ∀ n w, router.workers.get? n = some w → w.nodeId = n) {field : InMemoryField K}
    (hf : field.Consistent) {es : List (MeshEvent K)} {m : Mesh K}
    (hrun : Run.execAll (Mesh.step router) (start field) es = some m)
    (hcarries : Run.EachStep (Mesh.step router) CarriesNodeId (start field) es) :
    Invariant router field es m := by
  refine Run.EachStep.induction (Mesh.step router) (P := Invariant router field) ?_
    (fun es m e m' hrun ih hG hstep => ih.step hnamed hf hrun hG hstep) es m hrun hcarries
  refine ⟨rfl, rfl, List.nodup_nil, fun rid => ?_, fun rid p hp => ?_⟩
  · simp [completions, start]
  · cases hp

/-- Concurrent routing is serialisable: each completed request deposits once, on the row of the
worker it was given, in completion order among the ticks. -/
theorem concurrent_routing_serialisable (router : Router K)
    (hnamed : ∀ n w, router.workers.get? n = some w → w.nodeId = n) (field : InMemoryField K)
    (hf : field.Consistent) (es : List (MeshEvent K)) (m : Mesh K)
    (hrun : Run.execAll (Mesh.step router) (start field) es = some m)
    (hcarries : Run.EachStep (Mesh.step router) CarriesNodeId (start field) es) :
    m.field = field.run (serialOps m.requests es) ∧
      (completions es).Nodup ∧
      (∀ rid, rid ∈ completions es ↔
        ∃ worker context result, m.requests rid = some (.completed worker context result)) ∧
      (∀ rid worker context result,
        m.requests rid = some (.completed worker context result) →
          worker.nodeId ∈ field.nodeIds ∧ Sampled router field es rid worker context ∧
            Ended es rid worker result) ∧
      ∀ n, m.field.rowOf n = (field.rowOf n).map (fun r =>
        ((serialOps m.requests es).filterMap (InMemoryField.Op.onRow n)).foldl
          (fun r op => op.apply field.saturationScale field.decay r) r) := by
  have h := Invariant.of_run hnamed hf hrun hcarries
  refine ⟨h.serial, h.nodup, h.completed, fun rid w c res hreq => ?_, fun n => ?_⟩
  · obtain ⟨hn, hsampled, hended, -⟩ := h.origin rid _ hreq
    exact ⟨hn, hsampled, hended⟩
  · rw [h.serial, (hf.run _).2 n,
      InMemoryField.lifeOf_of_fixed n _ (serialOps_fixesMembership m.requests es), Option.map_map]
    rfl

/-- A tick while the worker executes, which then crashes: the tick comes first. -/
theorem concurrent_routing_serialisable_crash :
    ∃ m, Run.execAll (step sampleRouter) (start (sampleField Row.defaultState))
        [.sample 0 none none 0, .tick (1 / 20), .finish 0 .raised, .deposit 0] = some m ∧
      m.field = (sampleField Row.defaultState).run
        [.applyEvaporation (1 / 20), .depositTrace "a" ⟨0, 0, false, 0, 0.5⟩] := by
  have hcompletes : ∀ rate : ℝ, ∃ m, Run.execAll (step sampleRouter)
      (start (sampleField Row.defaultState))
      [.sample 0 none none 0, .tick rate, .finish 0 .raised, .deposit 0] = some m ∧
      m.requests 0 = some (.completed ⟨"a", ["cpu"]⟩ none (crashResult ⟨"a", ["cpu"]⟩)) := by
    intro rate
    have hc := ((sampleField_consistent Row.defaultState).applyEvaporation rate).1
    have hn : "a" ∈ ((sampleField Row.defaultState).applyEvaporation rate).2.nodeIds := by
      rw [((sampleField Row.defaultState).applyEvaporation_rowsOnly rate).nodeIds]
      exact List.mem_singleton.mpr rfl
    simp [step, start, setPhase, sampleRouter_samples, Outcome.result,
      finish_of_known hc ⟨"a", ["cpu"]⟩ none (crashResult ⟨"a", ["cpu"]⟩) hn]
  obtain ⟨m, hrun, hreq⟩ := hcompletes (1 / 20)
  refine ⟨m, hrun, (concurrent_routing_serialisable sampleRouter sampleRouter_named _
    (sampleField_consistent _) _ m hrun ?_).1.trans ?_⟩
  · intro pre e post s hes _
    have he : e ∈ [MeshEvent.sample 0 none none 0, .tick (1 / 20), .finish 0 .raised,
        .deposit 0] := hes ▸ by simp
    simp only [List.mem_cons, List.not_mem_nil, or_false] at he
    rcases he with rfl | rfl | rfl | rfl <;> trivial
  · simp only [serialOps, List.filterMap_cons, List.filterMap_nil, serialOp, hreq]
    rfl

end Mesh

end StigmergicMesh
