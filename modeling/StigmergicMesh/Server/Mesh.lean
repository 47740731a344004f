import StigmergicMesh.Library.Projection
import StigmergicMesh.Server.Startup
import StigmergicMesh.Worker.Fleet

/-!
# The mesh

The ingress server together with its worker nodes. Where the server alone takes what a worker
returns or yields as it comes, here it is what the node's method makes of it: sampling a worker for
a request begins a call of that node, and the request goes on when the call has a chunk for it or
has ended. The server and each node run in the mesh as they run alone, so what is proved of them
holds here, and what the server needs of its workers is true of all nodes that can be configured.
-/

namespace StigmergicMesh.Server

open WorkerNode

variable {K : Type*}

/-! ## Configuration -/

/-- An entry of `server.workers`; `timeout_sec` is left to the HTTP client. -/
structure NodeSpec (K : Type*) extends WorkerSpec where
  baseDelaySec : Option K
  loadFactor : Option K
  successRate : Option K
  apiKey : Option String
  model : Option String

/-- `base_url.rstrip("/")`. -/
def stripSlashes (baseUrl : String) : String := String.ofList (baseUrl.toList.rdropWhile (· = '/'))

section Creation

variable [Field K]

/-- `_create_worker`, with all that the methods of a node read. -/
def createNode (spec : NodeSpec K) : Except StartupError (Node K) :=
  let wtype := spec.type.getD "mock"
  match spec.nodeId with
  | none => .error (.keyError "node_id")
  | some nodeId =>
    let tags := spec.capabilityTags.getD []
    if wtype = "mock" then
      .ok ⟨.mock ⟨nodeId, spec.baseDelaySec.getD 0.05, spec.loadFactor.getD 0.5,
        spec.successRate.getD 1⟩, tags⟩
    else if wtype = "vllm" then
      match spec.baseUrl with
      | none => .error (.keyError "base_url")
      | some baseUrl => .ok ⟨.vllm ⟨nodeId, stripSlashes baseUrl, spec.apiKey.getD "",
          spec.model.getD "default"⟩, tags⟩
    else if wtype = "ollama" then
      match spec.baseUrl with
      | none => .error (.keyError "base_url")
      | some baseUrl => .ok ⟨.ollama ⟨nodeId, stripSlashes baseUrl, spec.model.getD "phi3"⟩, tags⟩
    else .error (.unknownWorkerType wtype)

/-- The nodes of `lifespan`. -/
def createNodes : List (NodeSpec K) → Dict String (Node K) →
    Except StartupError (Dict String (Node K))
  | [], nodes => .ok nodes
  | spec :: specs, nodes =>
    match createNode spec with
    | .error e => .error e
    | .ok node => createNodes specs (nodes.set node.nodeId node)

/-- The nodes of a configuration without any. -/
def mockNodeSpecs : List (NodeSpec K) :=
  [("mock_node_0", 0.05), ("mock_node_1", 0.05), ("mock_node_2", 0.10)].map fun (nodeId, delay) =>
    ⟨⟨some nodeId, some "mock", none, none⟩, some delay, none, none, none, none⟩

/-- The router's view of a node is what `createWorker` makes. -/
theorem map_worker_createNode (spec : NodeSpec K) :
    (createNode spec).map Node.worker = createWorker spec.toWorkerSpec := by
  unfold createNode createWorker
  dsimp only
  cases spec.nodeId with
  | none => rfl
  | some nodeId =>
    dsimp only
    by_cases hmock : spec.type.getD "mock" = "mock"
    · simp only [hmock, if_true]
      rfl
    · by_cases hvllm : spec.type.getD "mock" = "vllm"
      · simp only [hvllm, if_true, true_or]
        cases spec.baseUrl <;> rfl
      · by_cases hollama : spec.type.getD "mock" = "ollama"
        · simp only [hollama, if_true, or_true]
          cases spec.baseUrl <;> rfl
        · simp only [hmock, hvllm, hollama, if_false, or_self]
          rfl

/-- The nodes and the router's view of them are created alike. -/
theorem createNodes_workers (specs : List (NodeSpec K)) {nodes : Dict String (Node K)}
    {workers : Dict String Worker} (h : ∀ n, (nodes.get? n).map Node.worker = workers.get? n) :
    match createNodes specs nodes with
    | .error e => createWorkers (specs.map NodeSpec.toWorkerSpec) workers = .error e
    | .ok nodes' => ∃ workers',
        createWorkers (specs.map NodeSpec.toWorkerSpec) workers = .ok workers' ∧
          ∀ n, (nodes'.get? n).map Node.worker = workers'.get? n := by
  induction specs generalizing nodes workers with
  | nil => exact ⟨workers, rfl, h⟩
  | cons spec specs ih =>
    have hworker := map_worker_createNode spec
    simp only [createNodes, List.map_cons, createWorkers]
    cases hnode : createNode spec with
    | error e =>
      rw [hnode] at hworker
      simp [← hworker, Except.map]
    | ok node =>
      rw [hnode] at hworker
      simp only [← hworker, Except.map]
      refine ih fun n => ?_
      rw [Dict.get?_set, Dict.get?_set, ← h n]
      show Option.map _ (if n = node.nodeId then _ else _) = if n = node.nodeId then _ else _
      split_ifs <;> rfl

end Creation

/-- What a mesh is made of. -/
structure MeshConfig (K : Type*) where
  platform : Platform K
  config : Config K
  texts : Texts
  nodes : Dict String (Node K)

/-- `lifespan` up to its `yield`, with the nodes of the workers. -/
def launch [Field K] (platform : Platform K) (texts : Texts) (settings : Settings K)
    (specs : List (NodeSpec K)) (around : Surroundings) :
    Except StartupError (MeshConfig K × Shared K) :=
  match lifespan platform.lower
    { settings with workers := specs.map NodeSpec.toWorkerSpec } around with
  | .error e => .error e
  | .ok (config, x) =>
    match createNodes (if specs.isEmpty then mockNodeSpecs else specs) Dict.empty with
    | .error e => .error e
    | .ok nodes => .ok (⟨platform, config, texts, nodes⟩, x)

/-- A launched mesh has a server that started up, and its nodes are the workers of the router. -/
theorem of_launch [Field K] {platform : Platform K} {texts : Texts} {settings : Settings K}
    {specs : List (NodeSpec K)} {around : Surroundings} {mesh : MeshConfig K} {x : Shared K}
    (h : launch platform texts settings specs around = .ok (mesh, x)) :
    lifespan platform.lower { settings with workers := specs.map NodeSpec.toWorkerSpec } around =
        .ok (mesh.config, x) ∧
      mesh.platform = platform ∧
      createNodes (if specs.isEmpty then mockNodeSpecs else specs) Dict.empty = .ok mesh.nodes ∧
      ∀ router, mesh.config.router = some router →
        ∀ n, (mesh.nodes.get? n).map Node.worker = router.workers.get? n := by
  unfold launch at h
  split at h
  · cases h
  · rename_i config y hlifespan
    split at h
    · cases h
    · rename_i nodes hnodes
      obtain ⟨rfl, rfl⟩ := Prod.mk.inj (Except.ok.inj h)
      refine ⟨hlifespan, rfl, hnodes, fun router hrouter n => ?_⟩
      have hempty : ∀ n, ((Dict.empty : Dict String (Node K)).get? n).map Node.worker =
          Dict.empty.get? n := fun _ => rfl
      have hworkers := createNodes_workers (if specs.isEmpty then mockNodeSpecs else specs) hempty
      rw [hnodes] at hworkers
      obtain ⟨workers, hcreated, hsame⟩ := hworkers
      have hspecs : (if specs.isEmpty then mockNodeSpecs else specs).map NodeSpec.toWorkerSpec =
          if (specs.map NodeSpec.toWorkerSpec).isEmpty then mockSpecs
          else specs.map NodeSpec.toWorkerSpec := by
        cases specs with
        | nil => rfl
        | cons => rfl
      rw [hspecs] at hcreated
      simp only [lifespan, hcreated] at hlifespan
      split at hlifespan
      · cases hlifespan
      · obtain ⟨rfl, -⟩ := Prod.mk.inj (Except.ok.inj hlifespan)
        obtain rfl := Option.some.inj hrouter
        exact hsame n

/-! ## The program -/

/-- The server, and the calls of each node by its id. -/
structure Mesh (K : Type*) where
  ingress : IngressState K
  calls : String → Calls Nat Unit K

def Mesh.start (x : Shared K) : Mesh K := ⟨.start x, fun _ => .start ⟨0, false⟩⟩

/-- A step that no node takes part in, a worker that is sampled for a request and called, and a
call that is resumed, with the clock of a frame. -/
inductive MeshEvent (K : Type*) where
  | serve (e : IngressEvent K)
  | sample (tid draw : Nat) (c : Circumstances K)
  | work (tid : Nat) (signal : Counted.Signal String) (created : Int)

/-- No node takes part in the step. -/
def Unaided : IngressEvent K → Bool
  | .resume _ (.sample _) => false
  | .resume _ (.execute _) => false
  | .resume _ (.chunk _ _) => false
  | .resume _ (.finish _) => false
  | .resume _ .abort => false
  | _ => true

/-- What a request asks of its worker. -/
def Request.job (r : Request) : Job := ⟨r.stream, r.prompt, r.maxTokens⟩

/-- The call that is made where a worker has been sampled. -/
def Point.sent? : Point K → Option (Job × Worker)
  | .executing a worker => some (a.request.job, worker)
  | .streaming a worker _ => some (a.request.job, worker)
  | _ => none

/-- What can resume a call that is awaited: it goes on, or it is cancelled with its request. -/
def awaited : Counted.Signal String → Bool
  | .next => true
  | .throw .cancelled => true
  | _ => false

/-- What can resume the call of a request. One that is left behind by its stream can be closed too;
while a frame is sent the call rests. -/
def Point.permits : Point K → Counted.Signal String → Bool
  | .executing _ _, signal => awaited signal
  | .streaming _ _ _, signal => awaited signal
  | .served _ _ (.broken _), _ => true
  | .served _ _ (.disconnected _), _ => true
  | _, _ => false

abbrev CallStage (K : Type*) := Counted.Stage Unit (TokenChunk K) String (Option (Result K))

/-- The result of `execute_inference`, as `route` reads it. -/
def readResult (r : Result K) : InferenceResult K :=
  ⟨r.nodeId, r.latencySec, r.tokens, r.success.truthy, r.activeLoad⟩

/-- A chunk of `execute_streaming`, as the generators read it. -/
def readChunk (c : TokenChunk K) : Piece K where
  chunkText := some c.chunkText
  latencySec := some c.latencySec
  isFirstToken := some c.isFirstToken
  tokenCount := some c.tokenCount
  success := some c.success
  activeLoad := some c.activeLoad
  done := some c.done

/-- What a request that waits at a point hears when its call comes to a stage: nothing yet, or what
it goes on with. -/
def hearing (created : Int) : Point K → CallStage K → Option (Input K)
  | .executing _ _, .ended (.returned (some r)) => some (.execute (.returned (readResult r) r.text))
  | .executing _ _, .ended (.raised (.exception _)) => some (.execute .raised)
  -- `None["node_id"]` raises outside the `try` of `route`, and a cancellation is no `Exception`.
  | .executing _ _, .ended _ => some .abort
  | .streaming _ _ _, .inside (some chunk) _ => some (.chunk (readChunk chunk) created)
  | .streaming _ _ _, .ended (.returned _) => some (.finish .finished)
  | .streaming _ _ _, .ended (.raised (.exception message)) => some (.finish (.raised message))
  | .streaming _ _ _, .ended _ => some .abort
  | _, _ => none

section Program

variable [Field K] [LinearOrder K] [Transcendental K] (mesh : MeshConfig K)

/-- The server of a mesh, as it runs alone. -/
abbrev MeshConfig.ingress : Tasks.Program (Shared K) Request (Input K) K (Point K) :=
  Server.ingress mesh.platform mesh.config

/-- The calls of a node, as they run alone. -/
abbrev MeshConfig.program (node : Node K) :
    Tasks.Program Counted.Shared (Job × Circumstances K) (Counted.Signal String) Empty
      (CallStage K) :=
  Counted.program (node.body mesh.texts)

/-- A request hears its call. -/
def MeshConfig.hear (i : IngressState K) (tid : Nat) : Option (Input K) → Option (IngressState K)
  | none => some i
  | some input => mesh.ingress.step i (.resume tid input)

/-- One step of a mesh. -/
def MeshConfig.step (m : Mesh K) : MeshEvent K → Option (Mesh K)
  | .serve e =>
    if Unaided e then (mesh.ingress.step m.ingress e).map fun i => { m with ingress := i }
    else none
  | .sample tid draw c =>
    (mesh.ingress.step m.ingress (.resume tid (.sample draw))).bind fun i =>
      match (i.task tid).bind Point.sent? with
      | none => some { m with ingress := i }
      | some (job, worker) =>
        (mesh.nodes.get? worker.nodeId).bind fun node =>
          ((mesh.program node).step (m.calls worker.nodeId) (.spawn tid (job, c))).map fun calls =>
            ⟨i, Function.update m.calls worker.nodeId calls⟩
  | .work tid signal created =>
    (m.ingress.task tid).bind fun p =>
      p.worker?.bind fun worker => (mesh.nodes.get? worker.nodeId).bind fun node =>
        if p.permits signal then
          ((mesh.program node).step (m.calls worker.nodeId) (.resume tid signal)).bind fun calls =>
            (calls.task tid).bind fun stage =>
              (mesh.hear m.ingress tid (hearing created p stage)).map fun i =>
                ⟨i, Function.update m.calls worker.nodeId calls⟩
        else none

/-- What one step of a mesh can do. -/
inductive MeshConfig.Moves (m : Mesh K) : MeshEvent K → Mesh K → Prop where
  | serve {e i} : Unaided e = true → mesh.ingress.step m.ingress e = some i →
      Moves m (.serve e) { m with ingress := i }
  | unserved {tid draw c i} :
      mesh.ingress.step m.ingress (.resume tid (.sample draw)) = some i →
      (i.task tid).bind Point.sent? = none →
      Moves m (.sample tid draw c) { m with ingress := i }
  | send {tid draw c i job} {worker : Worker} {node} :
      mesh.ingress.step m.ingress (.resume tid (.sample draw)) = some i →
      (i.task tid).bind Point.sent? = some (job, worker) →
      mesh.nodes.get? worker.nodeId = some node →
      (m.calls worker.nodeId).task tid = none →
      Moves m (.sample tid draw c) ⟨i, Function.update m.calls worker.nodeId
        ((m.calls worker.nodeId).move tid (m.calls worker.nodeId).shared
          (.created (node.body mesh.texts (job, c))))⟩
  | work {tid signal created p} {worker : Worker} {node stage x q i} :
      m.ingress.task tid = some p → p.worker? = some worker →
      mesh.nodes.get? worker.nodeId = some node → p.permits signal = true →
      (m.calls worker.nodeId).task tid = some stage →
      Counted.resume signal (m.calls worker.nodeId).shared stage = some (x, q) →
      mesh.hear m.ingress tid (hearing created p q) = some i →
      Moves m (.work tid signal created)
        ⟨i, Function.update m.calls worker.nodeId ((m.calls worker.nodeId).move tid x q)⟩

variable {mesh}

theorem MeshConfig.moves_of_step {m m' : Mesh K} {e : MeshEvent K} (h : mesh.step m e = some m') :
    mesh.Moves m e m' := by
  cases e with
  | serve e =>
    simp only [step] at h
    split_ifs at h with hserve
    obtain ⟨i, hi, rfl⟩ := Option.map_eq_some_iff.mp h
    exact .serve hserve hi
  | sample tid draw c =>
    obtain ⟨i, hi, h⟩ := Option.bind_eq_some_iff.mp h
    split at h
    · obtain rfl := Option.some.inj h
      exact .unserved hi ‹_›
    · obtain ⟨node, hnode, h⟩ := Option.bind_eq_some_iff.mp h
      obtain ⟨calls, hcalls, rfl⟩ := Option.map_eq_some_iff.mp h
      obtain ⟨_, _, he, hfree, rfl⟩ | ⟨_, _, _, _, _, he, -⟩ | ⟨_, _, he, -⟩ :=
        (mesh.program node).step_cases hcalls
      · cases he
        exact .send hi ‹_› hnode hfree
      · cases he
      · cases he
  | work tid signal created =>
    obtain ⟨p, hp, h⟩ := Option.bind_eq_some_iff.mp h
    obtain ⟨worker, hworker, h⟩ := Option.bind_eq_some_iff.mp h
    obtain ⟨node, hnode, h⟩ := Option.bind_eq_some_iff.mp h
    split_ifs at h with hpermits
    obtain ⟨calls, hcalls, h⟩ := Option.bind_eq_some_iff.mp h
    obtain ⟨stage, hstage, h⟩ := Option.bind_eq_some_iff.mp h
    obtain ⟨i, hi, rfl⟩ := Option.map_eq_some_iff.mp h
    obtain ⟨_, _, he, -⟩ | ⟨_, _, q, x, r, he, hq, hr, rfl⟩ | ⟨_, _, he, -⟩ :=
      (mesh.program node).step_cases hcalls
    · cases he
    · cases he
      obtain rfl : r = stage := by simpa using hstage
      exact .work hp hworker hnode hpermits hq hr hi
    · cases he

end Program

end StigmergicMesh.Server
