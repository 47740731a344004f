import StigmergicMesh.Router.Scores
import StigmergicMesh.Worker.Load

/-!
# The worker nodes of a mesh

A mesh has worker nodes of all three kinds, so a call of a node is a call of whichever kind it is.
What a call says of itself is the same for all of them: its chunks and its result carry the load of
the node beside the call, its result carries the id of the node, and no latency is negative.
-/

namespace StigmergicMesh.WorkerNode

open Counted

variable {K : Type*}

/-! ## Nodes and calls -/

inductive Kind (K : Type*) where
  | mock (node : CPUMockWorkerNode K)
  | vllm (node : GPUvLLMWorkerNode)
  | ollama (node : OllamaWorkerNode)

/-- A worker node, with the attributes of `BaseWorkerNode`. -/
structure Node (K : Type*) where
  kind : Kind K
  capabilityTags : List String

def Node.nodeId (node : Node K) : String :=
  match node.kind with
  | .mock node => node.nodeId
  | .vllm node => node.nodeId
  | .ollama node => node.nodeId

/-- What a router knows of a node. -/
def Node.worker (node : Node K) : Worker := ⟨node.nodeId, node.capabilityTags⟩

/-- A call of `execute_inference` or of `execute_streaming`. -/
structure Job where
  stream : Bool
  prompt : String
  maxTokens : Int

/-- What a call finds around it: the clock, what the mock worker draws, and the server of a
client. -/
structure Circumstances (K : Type*) where
  clock : Nat → K
  source : Nat
  luck : K
  exchange : Request → Exchange
  upstream : Request → Connection

/-- `json.loads`, and the messages of the exceptions of `randint` and of reading a document. -/
structure Texts where
  strRange : Int → Int → String
  loads : String → Loaded
  strAccess : Json.AccessError → String

def Job.mockCall (job : Job) (c : Circumstances K) : MockCall K :=
  if job.stream then .streaming c.clock c.source c.luck job.maxTokens
  else .inference c.source c.luck job.prompt job.maxTokens

def Job.clientCall (job : Job) (c : Circumstances K) : ClientCall K :=
  if job.stream then .streaming c.clock c.upstream job.prompt job.maxTokens
  else .inference c.clock c.exchange job.prompt job.maxTokens

/-- The calls of a node. -/
def Node.body [Field K] [LinearOrder K] (texts : Texts) (node : Node K) :
    Bodies (Job × Circumstances K) Unit K
  | (job, c), startLoad =>
    match node.kind with
    | .mock node => (node.body texts.strRange (job.mockCall c) startLoad).forget
    | .vllm node => (node.body texts.loads texts.strAccess (job.clientCall c) startLoad).forget
    | .ollama node => (node.body texts.loads texts.strAccess (job.clientCall c) startLoad).forget

/-! ## What calls say -/

/-- The latency that a chunk says is not negative. -/
def Timed [Zero K] [LE K] (chunk : Int → TokenChunk K) : Prop :=
  ∀ load, 0 ≤ (chunk load).latencySec

/-- A result, if there is one, is the node's own, with a latency that is not negative. -/
def Own [Zero K] [LE K] (nodeId : String) (result : Int → Option (Result K)) : Prop :=
  ∀ load r, result load = some r → r.nodeId = nodeId ∧ 0 ≤ r.latencySec

section Calls

variable {σ : Type*} [Zero K] [LE K]

theorem timed_inferenceCall {nodeId : String}
    {g : Gen σ (Int → TokenChunk K) String (Int → Result K)}
    (h : g.Always Timed fun result => ∀ load, (result load).nodeId = nodeId ∧
      0 ≤ (result load).latencySec) :
    (inferenceCall g).Always Timed (Own nodeId) :=
  Gen.always_bind h fun _ _ hr load _ heq => Option.some.inj heq ▸ hr load

theorem timed_streamingCall {nodeId : String} {g : Gen σ (Int → TokenChunk K) String Unit}
    (h : g.Always Timed fun _ => True) : (streamingCall g).Always Timed (Own nodeId) :=
  Gen.always_bind h fun _ _ _ _ _ heq => by cases heq

end Calls

theorem GPUvLLMWorkerNode.resultOf_spec [Sub K] (str : Json.AccessError → String) (clock : Nat → K)
    (node : GPUvLLMWorkerNode) {prompt : String} {maxTokens : Int} {l : Locals} {data : Json}
    {result : Int → Result K}
    (h : node.resultOf str clock prompt maxTokens l data = .ok result) (load : Int) :
    (result load).nodeId = node.nodeId ∧ (result load).latencySec = l.elapsed clock := by
  -- Every branch but the last raises.
  simp only [resultOf] at h
  iterate 4
    split at h
    · cases h
  cases h
  exact ⟨rfl, rfl⟩

theorem OllamaWorkerNode.resultOf_spec [Sub K] (str : Json.AccessError → String) (clock : Nat → K)
    (node : OllamaWorkerNode) {prompt : String} {maxTokens : Int} {l : Locals} {data : Json}
    {result : Int → Result K}
    (h : node.resultOf str clock prompt maxTokens l data = .ok result) (load : Int) :
    (result load).nodeId = node.nodeId ∧ (result load).latencySec = l.elapsed clock := by
  simp only [resultOf] at h
  split at h
  · iterate 2
      split at h
      · cases h
    cases h
    exact ⟨rfl, rfl⟩
  · cases h
  · cases h

section Ordered

variable [Field K] [LinearOrder K] [IsStrictOrderedRing K]

/-- A clock that does not go back. -/
theorem Locals.elapsed_nonneg {clock : Nat → K} (h : Monotone clock) (l : Locals) :
    0 ≤ l.elapsed clock :=
  sub_nonneg.mpr (h (Nat.zero_le _))

/-! ### The mock worker -/

/-- Numbers that a delay can be made of. -/
structure CPUMockWorkerNode.Sound (node : CPUMockWorkerNode K) : Prop where
  baseDelaySec : 0 ≤ node.baseDelaySec
  loadFactor : 0 ≤ node.loadFactor

theorem CPUMockWorkerNode.Sound.delay_nonneg {node : CPUMockWorkerNode K} (h : node.Sound)
    {startLoad : Int} (hload : 0 ≤ startLoad) : 0 ≤ node.delay startLoad := by
  have hload : (0 : K) ≤ startLoad := by exact_mod_cast hload
  exact mul_nonneg h.baseDelaySec (add_nonneg zero_le_one (mul_nonneg hload h.loadFactor))

theorem CPUMockWorkerNode.Sound.timed {node : CPUMockWorkerNode K} (h : node.Sound)
    (str : Int → Int → String) {call : MockCall K}
    (hclock : ∀ clock source luck maxTokens, call = .streaming clock source luck maxTokens →
      Monotone clock) {startLoad : Int} (hload : 0 ≤ startLoad) :
    (node.body str call startLoad).Always Timed (Own node.nodeId) := by
  have hdelay := h.delay_nonneg hload
  cases call with
  | inference source luck prompt maxTokens =>
    refine timed_inferenceCall (Gen.always_bind (Gen.always_await ..) fun _ l _ => ?_)
    cases drawTokens str source maxTokens with
    | error message => trivial
    | ok tokens => exact fun _ => ⟨rfl, hdelay⟩
  | streaming clock source luck maxTokens =>
    have hclock := hclock clock source luck maxTokens rfl
    have hread : ∀ n, 0 ≤ clock n - clock 0 := fun n => sub_nonneg.mpr (hclock (Nat.zero_le n))
    have hremaining : ∀ success n l,
        (streamRemaining node clock success n l).Always Timed fun _ => True := by
      intro success n
      induction n with
      | zero => exact fun _ => trivial
      | succ n ih =>
        exact fun l => Gen.always_bind (Gen.always_await ..) fun _ l _ =>
          Gen.always_bind (Gen.always_yield fun _ => hread _) fun _ l _ => ih l
    have httft : 0 ≤ node.delay startLoad * 0.3 := mul_nonneg hdelay (by norm_num)
    refine timed_streamingCall ?_
    unfold executeStreaming
    cases drawTokens str source maxTokens with
    | error message => trivial
    | ok tokens =>
      exact Gen.always_bind (Gen.always_await ..) fun _ l _ =>
        Gen.always_bind (Gen.always_yield fun _ => httft) fun _ l _ =>
          Gen.always_bind (hremaining ..) fun _ l _ => Gen.always_yield fun _ => hread _

/-! ### The clients -/

/-- The chunks that a client makes of what it reads are among `P`. -/
structure Client.Yields (client : Client K) (P : (Int → TokenChunk K) → Prop) : Prop where
  onLine : ∀ l line chunk, (client.onLine l line).2 = .ok (some chunk) → P chunk
  atEnd : ∀ l, ∀ chunk ∈ client.atEnd l, P chunk

omit [Field K] [LinearOrder K] [IsStrictOrderedRing K] in
theorem Client.Yields.readLines {client : Client K} {P : (Int → TokenChunk K) → Prop}
    (h : client.Yields P) (arrivals : Arrivals) (l : Locals) :
    (client.readLines arrivals l).Always P fun _ => True := by
  induction arrivals generalizing l with
  | stops c => exact Gen.always_await l c
  | next c rest ih =>
    refine Gen.always_bind (Gen.always_await l c) fun line l _ => ?_
    have hline := h.onLine l line
    rcases hcase : client.onLine l line with ⟨l', message | _ | chunk⟩ <;> rw [hcase] at hline
    · trivial
    · exact ih l'
    · exact Gen.always_bind (Gen.always_yield (hline chunk rfl)) fun _ l _ => ih l

section Client

variable {clock : Nat → K} (hclock : Monotone clock)

include hclock

theorem Client.Yields.executeStreaming {client : Client K} (h : client.Yields Timed)
    (nodeId : String) (upstream : Request → Connection) (prompt : String) (maxTokens : Int) :
    (client.executeStreaming clock nodeId upstream prompt maxTokens).Always Timed
      fun _ => True := by
  refine Gen.always_tryExcept (Gen.always_bind (Gen.always_await ..) fun _ l _ =>
    Gen.always_tryFinally ?_ fun l => Gen.always_await ..) fun message l =>
      Gen.always_yield fun _ => Locals.elapsed_nonneg hclock l
  unfold Client.respond
  split
  · trivial
  · refine Gen.always_bind (h.readLines _ l) fun _ l _ => ?_
    have hend := h.atEnd l
    split
    · exact Gen.always_yield (hend _ (by assumption))
    · trivial

theorem timed_inference (nodeId : String) (exchange : Exchange) (prompt : String)
    (maxTokens : Int) {resultOf : Locals → Json → Except String (Int → Result K)}
    (h : ∀ l data result, resultOf l data = .ok result → ∀ load,
      (result load).nodeId = nodeId ∧ (result load).latencySec = l.elapsed clock) :
    (inference clock nodeId exchange prompt maxTokens resultOf).Always Timed
      fun result => ∀ load, (result load).nodeId = nodeId ∧ 0 ≤ (result load).latencySec := by
  refine Gen.always_tryExcept (Gen.always_bind (Gen.always_await ..) fun _ l _ =>
    Gen.always_bind (Q := fun _ => True) (Gen.always_tryFinally ?_ fun l => Gen.always_await ..)
      fun data l _ => ?_) fun message l _ => ⟨rfl, Locals.elapsed_nonneg hclock l⟩
  · refine Gen.always_bind (Gen.always_await ..) fun response l _ => ?_
    cases response <;> trivial
  · have hresult := h l data
    split
    · trivial
    · intro load
      obtain ⟨hid, hlatency⟩ := hresult _ (by assumption) load
      exact ⟨hid, hlatency ▸ Locals.elapsed_nonneg hclock l⟩

variable (loads : String → Loaded) (str : Json.AccessError → String)

theorem GPUvLLMWorkerNode.timed (node : GPUvLLMWorkerNode) :
    (node.client loads str clock).Yields Timed := by
  constructor
  · intro l line chunk h
    simp only [client, onLine] at h
    split at h <;> cases h
    exact fun _ => Locals.elapsed_nonneg hclock _
  · rintro l _ ⟨⟩
    exact fun _ => Locals.elapsed_nonneg hclock _

theorem OllamaWorkerNode.timed (node : OllamaWorkerNode) :
    (node.client loads str clock).Yields Timed := by
  constructor
  · intro l line chunk h
    simp only [client, onLine] at h
    split_ifs at h
    · cases h
    · split at h
      · cases h
      · cases h
      · split at h
        · split at h
          · cases h
          · cases h
            exact fun _ => Locals.elapsed_nonneg hclock _
        · cases h
        · cases h
  · rintro l _ ⟨⟩

end Client

/-! ### Every node -/

/-- A node whose numbers are sound. -/
def Node.Sound (node : Node K) : Prop :=
  match node.kind with
  | .mock node => node.Sound
  | _ => True

theorem Node.Sound.timed {node : Node K} (h : node.Sound) (texts : Texts) (job : Job)
    {c : Circumstances K} (hclock : Monotone c.clock) {startLoad : Int} (hload : 0 ≤ startLoad) :
    (node.body texts (job, c) startLoad).Always Timed (Own node.nodeId) := by
  obtain ⟨kind, tags⟩ := node
  cases kind with
  | mock node =>
    refine (CPUMockWorkerNode.Sound.timed h texts.strRange ?_ hload).forget
    intro clock source luck maxTokens hcall
    unfold Job.mockCall at hcall
    split_ifs at hcall
    cases hcall
    exact hclock
  | vllm node =>
    refine Gen.Always.forget ?_
    unfold Job.clientCall
    split_ifs
    · exact timed_streamingCall ((node.timed hclock ..).executeStreaming hclock ..)
    · exact timed_inferenceCall (timed_inference hclock _ _ _ _ fun _ _ _ =>
        node.resultOf_spec texts.strAccess c.clock)
  | ollama node =>
    refine Gen.Always.forget ?_
    unfold Job.clientCall
    split_ifs
    · exact timed_streamingCall ((node.timed hclock ..).executeStreaming hclock ..)
    · exact timed_inferenceCall (timed_inference hclock _ _ _ _ fun _ _ _ =>
        node.resultOf_spec texts.strAccess c.clock)

omit [IsStrictOrderedRing K] in
theorem Node.always_body (texts : Texts) (node : Node K) (call : Job × Circumstances K)
    (startLoad : Int) : (node.body texts call startLoad).Always SaysOthers MaySayLeft := by
  obtain ⟨kind, tags⟩ := node
  cases kind with
  | mock node => exact (node.always_body texts.strRange _ startLoad).forget
  | vllm node => exact (node.always_body texts.loads texts.strAccess _ startLoad).forget
  | ollama node => exact (node.always_body texts.loads texts.strAccess _ startLoad).forget

end Ordered

end StigmergicMesh.WorkerNode
