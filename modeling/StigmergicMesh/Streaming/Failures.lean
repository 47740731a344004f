import StigmergicMesh.Streaming.Sse

/-!
# Failed streams

Only the deposit of the first token reads a chunk's `success`; the deposit of a batch is always a
success, and the handler of an exception deposits nothing. So a failure is recorded exactly if it
comes with the first chunk that says it is the first token.
-/

namespace StigmergicMesh.Streaming

open Router

variable {K : Type*}

variable [Field K] [LinearOrder K]

theorem sampled_tracked [Transcendental K] {router : Router K}
    (hnamed : ∀ n w, router.workers.get? n = some w → w.nodeId = n) {field : InMemoryField K}
    {capabilityContext weightsOverride : Option (Dict String K)} {draw : Nat} {worker : Worker}
    (h : router.sampleWorker field capabilityContext weightsOverride draw = .ok worker) :
    worker.nodeId ∈ field.nodeIds := by
  obtain ⟨n, hn, hw⟩ := Router.sampleWorker_mem h
  rwa [hnamed n worker hw]

/-- A generator ran, and what it leaves satisfies `P`. -/
def Leaves (result : Except FieldError (Progress K)) (P : Progress K → Prop) : Prop :=
  ∃ p, result = .ok p ∧ P p

/-- Once the worker is sampled a generator leaves what its `try` statement does. -/
theorem leaves_generate_iff [Transcendental K] {router : Router K} {field : InMemoryField K}
    {capabilityContext weightsOverride : Option (Dict String K)} {draw : Nat} {worker : Worker}
    (hworker : router.sampleWorker field capabilityContext weightsOverride draw = .ok worker)
    (capabilityMatch : K) (clock : Nat → Int) (str : FieldError → String)
    (execution : Worker → WorkerStream K) (fmt : Format) (P : Progress K → Prop) :
    Leaves (generate router field capabilityContext capabilityMatch weightsOverride draw clock str
      execution fmt) P ↔
      P (stream fmt clock str worker field capabilityMatch (execution worker)) := by
  simp [Leaves, generate, hworker]

end StigmergicMesh.Streaming
