import StigmergicMesh.Library.Counted
import StigmergicMesh.Worker.Mock
import StigmergicMesh.Worker.Ollama
import StigmergicMesh.Worker.Vllm

/-!
# The active load of a worker

Both methods of each worker raise `_active_load` before their `try` and lower it in the `finally`,
so they are counted calls. What is left to show of them is that the chunks and the results they
build say the load as they should, on every path.
-/

namespace StigmergicMesh.WorkerNode

open Counted

variable {K σ τ γ : Type*}

/-! ## The calls of a worker -/

/-- A call of `execute_inference`. -/
def inferenceCall (g : Gen σ (Int → TokenChunk K) String (Int → Result K)) :
    Gen σ (Int → TokenChunk K) String (Int → Option (Result K)) :=
  g.bind fun result s => .pure s fun load => some (result load)

/-- A call of `execute_streaming`, which returns nothing. -/
def streamingCall (g : Gen σ (Int → TokenChunk K) String Unit) :
    Gen σ (Int → TokenChunk K) String (Int → Option (Result K)) :=
  g.bind fun _ s => .pure s fun _ => none

/-- A call of a worker node. -/
inductive MockCall (K : Type*) where
  | inference (source : Nat) (luck : K) (prompt : String) (maxTokens : Int)
  | streaming (clock : Nat → K) (source : Nat) (luck : K) (maxTokens : Int)

/-- A call of a client, with what the server does. -/
inductive ClientCall (K : Type*) where
  | inference (clock : Nat → K) (exchange : Request → Exchange) (prompt : String) (maxTokens : Int)
  | streaming (clock : Nat → K) (upstream : Request → Connection) (prompt : String)
    (maxTokens : Int)

/-- The bodies of the calls of a worker. -/
abbrev Bodies (γ σ K : Type*) := γ → Body σ (TokenChunk K) String (Option (Result K))

def CPUMockWorkerNode.body [Field K] [LinearOrder K] (str : Int → Int → String)
    (node : CPUMockWorkerNode K) : Bodies (MockCall K) CPUMockWorkerNode.Locals K
  | .inference source luck prompt maxTokens, startLoad =>
    inferenceCall (executeInference str node source luck prompt maxTokens startLoad)
  | .streaming clock source luck maxTokens, startLoad =>
    streamingCall (executeStreaming str node clock source luck maxTokens startLoad)

section Clients

variable [Sub K] (loads : String → Loaded) (str : Json.AccessError → String)

def GPUvLLMWorkerNode.body (node : GPUvLLMWorkerNode) : Bodies (ClientCall K) Locals K
  | .inference clock exchange prompt maxTokens, _ =>
    inferenceCall (node.executeInference str clock exchange prompt maxTokens)
  | .streaming clock upstream prompt maxTokens, _ =>
    streamingCall (node.executeStreaming loads str clock upstream prompt maxTokens)

def OllamaWorkerNode.body (node : OllamaWorkerNode) : Bodies (ClientCall K) Locals K
  | .inference clock exchange prompt maxTokens, _ =>
    inferenceCall (node.executeInference str clock exchange prompt maxTokens)
  | .streaming clock upstream prompt maxTokens, _ =>
    streamingCall (node.executeStreaming loads str clock upstream prompt maxTokens)

end Clients

/-! ## What chunks and results say -/

/-- A chunk says how many calls there are beside its own. -/
def SaysOthers (chunk : Int → TokenChunk K) : Prop :=
  ∀ load, (chunk load).activeLoad = max 0 (load - 1)

/-- A result says how many calls are left. -/
def SaysLeft (result : Int → Result K) : Prop := ∀ load, (result load).activeLoad = max 0 load

/-- What a call returns says how many calls are left, or nothing. -/
def MaySayLeft (result : Int → Option (Result K)) : Prop :=
  ∀ load r, result load = some r → r.activeLoad = max 0 load

theorem always_inferenceCall {g : Gen σ (Int → TokenChunk K) String (Int → Result K)}
    (h : g.Always SaysOthers SaysLeft) : (inferenceCall g).Always SaysOthers MaySayLeft :=
  Gen.always_bind h fun _ _ hr load _ heq => Option.some.inj heq ▸ hr load

theorem always_streamingCall {g : Gen σ (Int → TokenChunk K) String Unit}
    (h : g.Always SaysOthers fun _ => True) : (streamingCall g).Always SaysOthers MaySayLeft :=
  Gen.always_bind h fun _ _ _ _ _ heq => by cases heq

section Clients

variable [Sub K] (clock : Nat → K)

/-- The chunks of a client say it. -/
structure Client.Honest (client : Client K) : Prop where
  onLine : ∀ l line chunk, (client.onLine l line).2 = .ok (some chunk) → SaysOthers chunk
  atEnd : ∀ l, ∀ chunk ∈ client.atEnd l, SaysOthers chunk

omit [Sub K] in
theorem Client.Honest.readLines {client : Client K} (h : client.Honest) (arrivals : Arrivals)
    (l : Locals) : (client.readLines arrivals l).Always SaysOthers fun _ => True := by
  induction arrivals generalizing l with
  | stops c => exact Gen.always_await l c
  | next c rest ih =>
    refine Gen.always_bind (Gen.always_await l c) fun line l _ => ?_
    have hline := h.onLine l line
    rcases hcase : client.onLine l line with ⟨l', message | _ | chunk⟩ <;> rw [hcase] at hline
    · trivial
    · exact ih l'
    · exact Gen.always_bind (Gen.always_yield (hline chunk rfl)) fun _ l _ => ih l

theorem Client.Honest.executeStreaming {client : Client K} (h : client.Honest) (nodeId : String)
    (upstream : Request → Connection) (prompt : String) (maxTokens : Int) :
    (client.executeStreaming clock nodeId upstream prompt maxTokens).Always SaysOthers
      fun _ => True := by
  refine Gen.always_tryExcept (Gen.always_bind (Gen.always_await ..) fun _ l _ =>
    Gen.always_tryFinally ?_ fun l => Gen.always_await ..) fun message l =>
      Gen.always_yield fun _ => rfl
  unfold Client.respond
  split
  · trivial
  · refine Gen.always_bind (h.readLines _ l) fun _ l _ => ?_
    have hend := h.atEnd l
    split
    · exact Gen.always_yield (hend _ (by assumption))
    · trivial

theorem always_inference (nodeId : String) (exchange : Exchange) (prompt : String)
    (maxTokens : Int) {resultOf : Locals → Json → Except String (Int → Result K)}
    (h : ∀ l data result, resultOf l data = .ok result → SaysLeft result) :
    (inference clock nodeId exchange prompt maxTokens resultOf).Always SaysOthers SaysLeft := by
  refine Gen.always_tryExcept (Gen.always_bind (Gen.always_await ..) fun _ l _ =>
    Gen.always_bind (Q := fun _ => True) (Gen.always_tryFinally ?_ fun l => Gen.always_await ..)
      fun data l _ => ?_) fun message l _ => rfl
  · refine Gen.always_bind (Gen.always_await ..) fun response l _ => ?_
    cases response <;> trivial
  · have hresult := h l data
    split
    · trivial
    · exact hresult _ (by assumption)

end Clients

/-! ## The three workers -/

theorem CPUMockWorkerNode.always_body [Field K] [LinearOrder K] (str : Int → Int → String)
    (node : CPUMockWorkerNode K) (call : MockCall K) (startLoad : Int) :
    (node.body str call startLoad).Always SaysOthers MaySayLeft := by
  cases call with
  | inference source luck prompt maxTokens =>
    refine always_inferenceCall (Gen.always_bind (Gen.always_await ..) fun _ l _ => ?_)
    cases drawTokens str source maxTokens with
    | error message => trivial
    | ok tokens => exact fun _ => rfl
  | streaming clock source luck maxTokens =>
    have hremaining : ∀ success n l,
        (streamRemaining node clock success n l).Always SaysOthers fun _ => True := by
      intro success n
      induction n with
      | zero => exact fun _ => trivial
      | succ n ih =>
        exact fun l => Gen.always_bind (Gen.always_await ..) fun _ l _ =>
          Gen.always_bind (Gen.always_yield fun _ => rfl) fun _ l _ => ih l
    refine always_streamingCall ?_
    unfold executeStreaming
    cases drawTokens str source maxTokens with
    | error message => trivial
    | ok tokens =>
      exact Gen.always_bind (Gen.always_await ..) fun _ l _ =>
        Gen.always_bind (Gen.always_yield fun _ => rfl) fun _ l _ =>
          Gen.always_bind (hremaining ..) fun _ l _ => Gen.always_yield fun _ => rfl

section Clients

variable [Sub K] (loads : String → Loaded) (str : Json.AccessError → String)

theorem GPUvLLMWorkerNode.honest (node : GPUvLLMWorkerNode) (clock : Nat → K) :
    (node.client loads str clock).Honest := by
  constructor
  · intro l line chunk h
    simp only [client, onLine] at h
    split at h <;> cases h
    exact fun _ => rfl
  · rintro l _ ⟨⟩
    exact fun _ => rfl

theorem GPUvLLMWorkerNode.always_body (node : GPUvLLMWorkerNode) (call : ClientCall K)
    (startLoad : Int) : (node.body loads str call startLoad).Always SaysOthers MaySayLeft := by
  cases call with
  | inference clock exchange prompt maxTokens =>
    refine always_inferenceCall (always_inference clock _ _ _ _ fun l data result h => ?_)
    -- Every branch but the last raises.
    simp only [resultOf] at h
    iterate 4
      split at h
      · cases h
    cases h
    exact fun _ => rfl
  | streaming clock upstream prompt maxTokens =>
    exact always_streamingCall ((node.honest loads str clock).executeStreaming clock ..)

theorem OllamaWorkerNode.honest (node : OllamaWorkerNode) (clock : Nat → K) :
    (node.client loads str clock).Honest := by
  constructor
  · intro l line chunk h
    simp only [client, onLine] at h
    split_ifs at h
    · cases h
    · split at h
      · cases h
      · cases h
      · split at h
        · split at h
          · cases h
          · cases h
            exact fun _ => rfl
        · cases h
        · cases h
  · rintro l _ ⟨⟩

theorem OllamaWorkerNode.always_body (node : OllamaWorkerNode) (call : ClientCall K)
    (startLoad : Int) : (node.body loads str call startLoad).Always SaysOthers MaySayLeft := by
  cases call with
  | inference clock exchange prompt maxTokens =>
    refine always_inferenceCall (always_inference clock _ _ _ _ fun l data result h => ?_)
    simp only [resultOf] at h
    split at h
    · iterate 2
        split at h
        · cases h
      cases h
      exact fun _ => rfl
    · cases h
    · cases h
  | streaming clock upstream prompt maxTokens =>
    exact always_streamingCall ((node.honest loads str clock).executeStreaming clock ..)

end Clients

/-! ## Every interleaving -/

/-- The `active_load` that a call has put into its last chunk or its result. -/
def reported : Stage σ (TokenChunk K) String (Option (Result K)) → Option Int
  | .inside (some chunk) _ => some chunk.activeLoad
  | .ended (.returned (some result)) => some result.activeLoad
  | _ => none

section Runs

variable [DecidableEq τ]

/-- The state of the calls of one worker, and what has resumed them. -/
abbrev Calls (τ σ K : Type*) :=
  Tasks.State τ Shared (Stage σ (TokenChunk K) String (Option (Result K)))

/-- The call is past its increment and not yet past its decrement. -/
def Calls.InFlight (s : Calls τ σ K) (tid : τ) : Prop :=
  ∃ p, s.task tid = some p ∧ p.InFlight = true

/-- The load is the number of the calls in flight, no decrement can be interrupted, and what the
call resumed last reports is the number of the other calls in flight. -/
structure ExactLoad (es : List (Tasks.Event τ γ (Signal String) Empty)) (s : Calls τ σ K) :
    Prop where
  load : ∃ T : Finset τ, (∀ tid, tid ∈ T ↔ s.InFlight tid) ∧ s.shared.count = T.card
  nonneg : 0 ≤ s.shared.count
  zero : (∀ tid, ¬s.InFlight tid) → s.shared.count = 0
  uninterrupted : ∀ tid p, s.task tid = some p → p.Waits = false
  report : ∀ es' tid signal p load, es = es' ++ [.resume tid signal] → s.task tid = some p →
    reported p = some load →
      ∃ T : Finset τ, (∀ tid', tid' ∈ T ↔ tid' ≠ tid ∧ s.InFlight tid') ∧ load = T.card

/-- A worker of which all chunks and results say the load accounts for it exactly. -/
theorem exactLoad_run {body : Bodies γ σ K}
    (hbody : ∀ call n, (body call n).Always SaysOthers MaySayLeft)
    {es : List (Tasks.Event τ γ (Signal String) Empty)} {s : Calls τ σ K}
    (hrun : Run.execAll (program body).step (.start ⟨0, false⟩) es = some s) : ExactLoad es s := by
  obtain ⟨T, hT⟩ := exists_tally hrun
  refine ⟨⟨T, hT.mem, hT.count⟩, hT.count ▸ Int.natCast_nonneg _, fun hnone => ?_, hT.waits, ?_⟩
  · have hempty : T = ∅ := Finset.eq_empty_of_forall_notMem fun tid htid =>
      hnone tid ((hT.mem tid).mp htid)
    rw [hT.count, hempty]
    rfl
  · rintro es' tid signal p load rfl hp hload
    obtain ⟨T, q, hT, hq, hshows⟩ := shows_of_resume hbody hrun
    obtain rfl := Option.some.inj (hq.symm.trans hp)
    refine ⟨T.erase tid, fun tid' => ?_, ?_⟩
    · rw [Finset.mem_erase, hT.mem]
      exact Iff.rfl
    · cases q with
      | inside shown rest =>
        cases shown with
        | none => cases hload
        | some chunk =>
          obtain ⟨out, hout, hchunk⟩ := hshows
          obtain rfl := Option.some.inj hload
          rw [hchunk, hout]
          simp [Stage.weight, Stage.InFlight]
      | ended exit =>
        cases exit with
        | returned result =>
          obtain ⟨f, hf, hresult⟩ := hshows
          cases result with
          | none => cases hload
          | some r =>
            obtain rfl := Option.some.inj hload
            rw [hf _ r hresult.symm]
            simp [Stage.weight, Stage.InFlight]
        | raised x => cases hload
      | created body | entering body | leaving exit => cases hload

/-- The load accounting of the three workers is exact over every interleaving of calls, whatever
the random draws, the server and the HTTP client do, and however the calls end. -/
theorem active_load_exact [Field K] [LinearOrder K] (strRange : Int → Int → String)
    (loads : String → Loaded) (str : Json.AccessError → String) (mock : CPUMockWorkerNode K)
    (vllm : GPUvLLMWorkerNode) (ollama : OllamaWorkerNode) :
    (∀ (es : List (Tasks.Event τ (MockCall K) (Signal String) Empty)) s,
      Run.execAll (program (mock.body strRange)).step (.start ⟨0, false⟩) es = some s →
        ExactLoad es s) ∧
    (∀ (es : List (Tasks.Event τ (ClientCall K) (Signal String) Empty)) s,
      Run.execAll (program (vllm.body loads str)).step (.start ⟨0, false⟩) es = some s →
        ExactLoad es s) ∧
    (∀ (es : List (Tasks.Event τ (ClientCall K) (Signal String) Empty)) s,
      Run.execAll (program (ollama.body loads str)).step (.start ⟨0, false⟩) es = some s →
        ExactLoad es s) :=
  ⟨fun _ _ => exactLoad_run (mock.always_body strRange),
    fun _ _ => exactLoad_run (vllm.always_body loads str),
    fun _ _ => exactLoad_run (ollama.always_body loads str)⟩

end Runs

/-- A stream that is closed at its first chunk, next to a call that is cancelled as it sleeps. -/
theorem active_load_of_two_calls :
    let mock : CPUMockWorkerNode ℚ := ⟨"cpu-1", 0.05, 0.5, 1⟩
    let es : List (Tasks.Event Nat (MockCall ℚ) (Signal String) Empty) :=
      [.spawn 0 (.streaming (fun n => n) 0 0.5 16), .spawn 1 (.inference 0 0.5 "Hi" 16),
        .resume 0 .next, .resume 1 .next, .resume 0 .next, .resume 1 (.throw .cancelled),
        .resume 0 (.throw .closed)]
    ∃ s, Run.execAll (program (mock.body fun _ _ => "empty range")).step (.start ⟨0, false⟩) es =
      some s ∧ ExactLoad es s :=
  ⟨_, rfl, (active_load_exact (fun _ _ => "empty range") (fun _ => .malformed) (fun _ => "")
    ⟨"cpu-1", 0.05, 0.5, (1 : ℚ)⟩ ⟨"gpu-1", "", "", "default"⟩ ⟨"ollama-1", "", "phi3"⟩).1 _ _ rfl⟩

end StigmergicMesh.WorkerNode
