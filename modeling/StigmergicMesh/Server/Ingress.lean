import StigmergicMesh.Auth.Bearer
import StigmergicMesh.Library.Tasks
import StigmergicMesh.Library.Text
import StigmergicMesh.RateLimit.Isolation
import StigmergicMesh.Router.Governance
import StigmergicMesh.Streaming.Capability

/-!
# The ingress server

Requests to `/v1/completions` and `/v1/chat/completions` as coroutines over what the server process
shares: the rate limiter with its keys in Redis, the in-memory field, and the counters. A request is
authenticated, charged, routed and answered, or refused on the way; it is suspended in the lookup
of its key, in the executions of the limiter's script, while its worker runs, and while a frame of
its stream is sent, and any other request can run then, and the decay engine too.

A request is modelled from where its body has been read: `maxTokens` is within the bounds of the
request models. It can be cancelled while it waits for its worker; a client that goes away while a
frame is sent closes the stream there.
-/

namespace StigmergicMesh.Server

open Auth

variable {K : Type*}

/-! ## Requests -/

/-- What the endpoints take for a prompt. -/
inductive Body where
  | completions (prompt : String)
  | chatCompletions (messages : List Streaming.ChatMessage)

/-- A request with its `Authorization` header. -/
structure Request where
  authorization : Option String
  body : Body
  maxTokens : Int
  stream : Bool
  maxTokens_mem : 1 ≤ maxTokens ∧ maxTokens ≤ 4096

def Request.prompt (r : Request) : String :=
  match r.body with
  | .completions prompt => prompt
  | .chatCompletions messages => Streaming.messagesToPrompt messages

/-- `_estimate_prompt_tokens`. -/
def estimatePromptTokens (prompt : String) : Int := (Text.words prompt.toList).length

/-! ## The process -/

/-- What the server takes from the standard library: how Redis values are read, the digest of a
key, `str.lower`, and the message of an exception. -/
structure Platform (K : Type*) where
  readers : Readers K
  sha256 : Bytes → String
  lower : String → String
  str : FieldError → String

/-- What of `MeshState` no request changes. `secretKeysMap` is there if an authenticator is
configured, `redis` says whether it and the rate limiter have a client. -/
structure Config (K : Type*) where
  router : Option (Router K)
  secretKeysMap : Option (Dict String (TenantContext K))
  rateLimiter : Bool
  policyEngine : Bool
  redis : Bool

/-- The counters of `api.metrics` that requests increment. -/
structure Counters where
  requestsTotal : String → String → Nat
  authFailuresTotal : String → Nat
  rateLimitExceededTotal : String → String → Nat

def Counters.zero : Counters := ⟨fun _ _ => 0, fun _ => 0, fun _ _ => 0⟩

namespace Counters

/-- `stigmergic_requests_total.labels(node_id, status).inc()`. -/
def incRequests (c : Counters) (nodeId status : String) : Counters :=
  { c with
    requestsTotal := fun n s => c.requestsTotal n s + if n = nodeId ∧ s = status then 1 else 0 }

/-- `stigmergic_auth_failures_total.labels(reason).inc()`. -/
def incAuthFailures (c : Counters) (reason : String) : Counters :=
  { c with authFailuresTotal := fun r => c.authFailuresTotal r + if r = reason then 1 else 0 }

/-- `stigmergic_rate_limit_exceeded_total.labels(tenant_id, dimension).inc()` for each dimension
that rejected. -/
def incExceeded (c : Counters) (tenantId : String) (dimensions : List String) : Counters :=
  { c with
    rateLimitExceededTotal := fun t d =>
      c.rateLimitExceededTotal t d + if t = tenantId then dimensions.count d else 0 }

end Counters

structure Shared (K : Type*) where
  limiter : RateLimit.Shared
  field : InMemoryField K
  counters : Counters

/-! ## Answers -/

/-- `_rate_limit_headers`. -/
def rateLimitHeaders (info : RateLimit.Info) : Dict String String :=
  Dict.ofList [("X-RateLimit-Limit", toString info.limit),
    ("X-RateLimit-Remaining", toString (max 0 info.remaining)),
    ("X-RateLimit-Reset", toString info.reset)]

/-- The headers of `_check_rate_and_headers`, from its call of the limiter if there was one. -/
def checkHeaders (call : Option RateLimit.Point) : Dict String String :=
  match call with
  | some (.returned _ info) =>
    if info.allowed then rateLimitHeaders info
    else (rateLimitHeaders info).set "Retry-After" (toString info.reset)
  | _ => Dict.empty

/-- Why a request is not let in, or was not served. -/
inductive Refusal where
  | unauthorized (u : Unauthorized)
  | notReady
  | rateLimitExceeded
  | limiterRaised

/-- The answers of requests that were given a worker. A document is made of a result, unless the
deposit raises, or the sum of its tokens does, or the call of the worker ends as no handler expects.
A stream comes to its end, or a deposit breaks it off, or its consumer does not take a frame, or it
is cancelled as it waits for its worker. -/
inductive Answer (K : Type*) where
  | json (result : InferenceResult K) (document : Json)
  | depositRaised
  | usageRaised (result : InferenceResult K)
  | aborted
  | streamed (p : Streaming.Progress K)
  | broken (p : Streaming.Progress K)
  | disconnected (p : Streaming.Progress K)
  | cancelled (p : Streaming.Progress K)

/-- How `execute_inference` ends, with the text that its result has. -/
inductive Execution (K : Type*) where
  | returned (result : InferenceResult K) (text : Option Json)
  | raised

def Execution.outcome : Execution K → Outcome K
  | .returned result _ => .returned result
  | .raised => .raised

def Execution.text : Execution K → Option Json
  | .returned _ text => text
  | .raised => none

/-- `status`. -/
def statusOf (result : InferenceResult K) : String := if result.success then "success" else "error"

/-- `usage`; a result whose tokens are no number has none. -/
def usage (prompt : String) (result : InferenceResult K) : Option Json :=
  (result.tokens.plus (estimatePromptTokens prompt)).map fun total =>
    .object [("prompt_tokens", estimatePromptTokens prompt), ("completion_tokens", result.tokens),
      ("total_tokens", total)]

/-- The text of an answer; a result without one is named after its node. -/
def completionText (result : InferenceResult K) (text : Option Json) : Json :=
  text.getD (.string ("[Response from " ++ result.nodeId ++ "]"))

/-- The document of `completions` and `chat_completions`; `hex` is the start of a fresh UUID. -/
def document (r : Request) (hex : String) (now : Int) (result : InferenceResult K)
    (text : Option Json) : Option Json :=
  (usage r.prompt result).map fun usage =>
    match r.body with
    | .completions _ =>
      .object [("id", .string ("cmpl-" ++ hex)), ("object", .string "text_completion"),
        ("created", .number now), ("model", .string result.nodeId),
        ("choices", .array [.object [("index", .number 0), ("text", completionText result text),
          ("finish_reason", .string "stop")]]),
        ("usage", usage)]
    | .chatCompletions _ =>
      .object [("id", .string ("chatcmpl-" ++ hex)), ("object", .string "chat.completion"),
        ("created", .number now), ("model", .string result.nodeId),
        ("choices", .array [.object [("index", .number 0),
          ("message", .object [("role", .string "assistant"),
            ("content", completionText result text)]),
          ("finish_reason", .string "stop")]]),
        ("usage", usage)]

/-- The frames of a request's stream. -/
def Request.format (r : Request) : Streaming.Format :=
  match r.body with
  | .completions _ => Streaming.completionFormat
  | .chatCompletions _ => Streaming.chatFormat

/-- A chunk of which the text is whatever the worker has. -/
abbrev Piece (K : Type*) := Streaming.Chunk K Json

/-- The frame of a chunk. -/
def Request.frame (r : Request) (created : Int) (worker : Worker) (chunkCount : Nat)
    (c : Piece K) : Json :=
  r.format.frameOf created worker chunkCount (c.chunkText.getD (.string "")) (c.done.getD false)

/-! ## The program -/

/-- A request that has been let in, with its call of the limiter if there is one. -/
structure Admission (K : Type*) where
  request : Request
  tenant : TenantContext K
  call : Option RateLimit.Point

/-- Where a request waits. A stream waits for its worker in `streaming`, and in `sending` for the
consumer to take the frame of a chunk. -/
inductive Point (K : Type*) where
  | received (r : Request)
  | resolving (r : Request)
  | limiting (r : Request) (tenant : TenantContext K) (call : RateLimit.Point)
  | admitted (a : Admission K)
  | executing (a : Admission K) (worker : Worker)
  | executed (a : Admission K) (worker : Worker) (result : InferenceResult K) (text : Option Json)
  | streaming (a : Admission K) (worker : Worker) (p : Streaming.Progress K)
  | sending (a : Admission K) (worker : Worker) (p : Streaming.Progress K) (c : Piece K)
  | refused (r : Request) (call : Option RateLimit.Point) (why : Refusal)
  | unserved (a : Admission K) (error : FieldError)
  | served (a : Admission K) (worker : Worker) (answer : Answer K)

/-- What a request learns when it resumes: that it is scheduled, the answer of `hgetall`, what the
limiter learns, the draw of the random generator, how its worker ended, the UUID and the clock of
the answer, a chunk of its stream with the clock of the frame, what its consumer does, how the
stream ended, and an exception that no handler takes where it waits for its worker. -/
inductive Input (K : Type*) where
  | begin
  | hgetall (reply : Except String (Dict Bytes Bytes))
  | limiter (i : RateLimit.Input)
  | sample (draw : Nat)
  | execute (ended : Execution K)
  | answer (hex : String) (now : Int)
  | chunk (c : Piece K) (created : Int)
  | next
  | close
  | finish (ending : Streaming.Ending)
  | abort

/-- The argument of `check_rate_limits` for a request of a tenant. -/
def checkOf (r : Request) (tenant : TenantContext K) : RateLimit.Check :=
  ⟨⟨tenant.tenantId, tenant.rpmLimit, tenant.tpmLimit⟩,
    estimatePromptTokens r.prompt + r.maxTokens⟩

section Program

variable [Field K] (platform : Platform K) (config : Config K)

/-- `_governed_weights`. -/
def governedWeights (router : Router K) (tenant : TenantContext K) : Option (Dict String K) :=
  if config.policyEngine then
    some (TenantPolicyEngine.applyGovernanceBias (some tenant.tier)
      (Dict.ofList [("alpha", router.weights.alpha), ("beta", router.weights.beta),
        ("gamma", router.weights.gamma), ("delta", router.weights.delta)]))
  else none

/-- `cap_context`. -/
def capContext (r : Request) : Option (Dict String K) :=
  some (Streaming.analyzePrompt platform.lower r.prompt)

/-- The handlers up to the call of the limiter. -/
def enter (x : Shared K) (r : Request) (tenant : TenantContext K) : Shared K × Point K :=
  match config.router with
  | none => (x, .refused r none .notReady)
  | some _ =>
    if config.rateLimiter then
      -- `_ensure_script` raises without a client.
      if config.redis then (x, .limiting r tenant (.start (checkOf r tenant)))
      else (x, .refused r none .limiterRaised)
    else (x, .admitted ⟨r, tenant, none⟩)

/-- `get_current_tenant` has returned or raised. -/
def authenticated (x : Shared K) (r : Request) :
    Except Unauthorized (TenantContext K) → Shared K × Point K
  | .ok tenant => enter config x r tenant
  | .error u =>
    ({ x with counters := x.counters.incAuthFailures u.reason },
      .refused r none (.unauthorized u))

/-- `get_current_tenant`, where Redis answers `reply`. -/
def tenantOf (reply : Option (Except String (Dict Bytes Bytes))) (r : Request) :
    Except Unauthorized (TenantContext K) :=
  getCurrentTenant platform.readers platform.sha256 platform.lower
    (config.secretKeysMap.map fun keys => ⟨reply.map fun reply _ => reply, keys⟩) r.authorization

/-- The request presents a key that is looked up in Redis. -/
def asksRedis (r : Request) : Bool :=
  config.redis && config.secretKeysMap.isSome &&
    (parseBearer platform.lower r.authorization).isSome

/-- The limiter has taken a step. -/
def limited (x : Shared K) (r : Request) (tenant : TenantContext K) :
    RateLimit.Point → Shared K × Point K
  | .returned c info =>
    ({ x with counters := x.counters.incExceeded tenant.tenantId info.exceeded },
      if info.allowed then .admitted ⟨r, tenant, some (.returned c info)⟩
      else .refused r (some (.returned c info)) .rateLimitExceeded)
  | .raised c => (x, .refused r (some (.raised c)) .limiterRaised)
  | call => (x, .limiting r tenant call)

variable [LinearOrder K]

/-- `sample_worker` of `route`, or of the generator when the request streams. -/
def sampled [Transcendental K] (x : Shared K) (router : Router K) (a : Admission K) (draw : Nat) :
    Point K :=
  match router.sampleWorker x.field (capContext platform a.request)
    (governedWeights config router a.tenant) draw with
  | .error e => .unserved a e
  | .ok worker =>
    if a.request.stream then .streaming a worker (.start x.field) else .executing a worker

/-- The end of `route` and the answer. -/
def answered (x : Shared K) (a : Admission K) (worker : Worker) (result : InferenceResult K)
    (text : Option Json) (hex : String) (now : Int) : Shared K × Point K :=
  match Router.finish x.field worker (capContext platform a.request) result with
  | (.error _, field) => ({ x with field := field }, .served a worker .depositRaised)
  | (.ok _, field) =>
    ({ x with
        field := field
        counters := x.counters.incRequests result.nodeId (statusOf result) },
      .served a worker
        (match document a.request hex now result text with
        | some document => .json result document
        | none => .usageRaised result))

/-- The deposits for a chunk, after its frame. -/
def depositChunk (p : Streaming.Progress K) (worker : Worker) (c : Piece K) :
    Except FieldError Unit × Streaming.Progress K :=
  match p.depositTtft worker 0.5 c with
  | (.error e, p) => (.error e, p)
  | (.ok (), p) =>
    match p.depositVelocity worker 0.5 c with
    | (.error e, p) => (.error e, p)
    | (.ok (), p) => (.ok (), { p with chunkCount := p.chunkCount + 1 })

/-- The generator goes on after a frame. -/
def resumed (x : Shared K) (a : Admission K) (worker : Worker) (p : Streaming.Progress K)
    (c : Piece K) : Shared K × Point K :=
  match depositChunk { p with field := x.field } worker c with
  | (.error e, p) =>
    ({ x with field := p.field },
      .served a worker (.broken
        ((p.yield (.data (Streaming.errorFrame (platform.str e)))).yield .done)))
  | (.ok (), p) => ({ x with field := p.field }, .streaming a worker p)

/-- The end of a stream. -/
def closed (p : Streaming.Progress K) : Streaming.Ending → Streaming.Progress K
  | .raised message => (p.yield (.data (Streaming.errorFrame message))).yield .done
  | .finished => p.yield .done

/-- The steps of a request between its suspensions. -/
def resume [Transcendental K] : Input K → Shared K → Point K → Option (Shared K × Point K)
  | .begin, x, .received r =>
    if asksRedis platform config r then some (x, .resolving r)
    else some (authenticated config x r (tenantOf platform config none r))
  | .hgetall reply, x, .resolving r =>
    some (authenticated config x r (tenantOf platform config (some reply) r))
  | .limiter i, x, .limiting r tenant call =>
    (RateLimit.resume i x.limiter call).map fun next =>
      limited { x with limiter := next.1 } r tenant next.2
  | .sample draw, x, .admitted a =>
    config.router.map fun router => (x, sampled platform config x router a draw)
  | .execute ended, x, .executing a worker =>
    some (x, .executed a worker (Router.Outcome.result worker ended.outcome) ended.text)
  | .answer hex now, x, .executed a worker result text =>
    some (answered platform x a worker result text hex now)
  | .chunk c created, x, .streaming a worker p =>
    some (x, .sending a worker
      (p.yield (.data (a.request.frame created worker p.chunkCount c))) c)
  | .next, x, .sending a worker p c => some (resumed platform x a worker p c)
  | .close, x, .sending a worker p _ => some (x, .served a worker (.disconnected p))
  | .finish ending, x, .streaming a worker p =>
    some (x, .served a worker (.streamed (closed p ending)))
  | .abort, x, .executing a worker => some (x, .served a worker .aborted)
  -- The `finally` of the generator yields the last line.
  | .abort, x, .streaming a worker p => some (x, .served a worker (.cancelled (p.yield .done)))
  | _, _, _ => none

/-- A call of the limiter that is in progress. -/
def Pending : RateLimit.Point → Prop
  | .start _ => True
  | .window .. => True
  | _ => False

/-- A request that goes through `get_current_tenant`, with the reply of Redis if it has one. -/
inductive Authenticating :
    Input K → Point K → Request → Option (Except String (Dict Bytes Bytes)) → Prop where
  | unasked {r} : asksRedis platform config r = false →
      Authenticating .begin (.received r) r none
  | replied {r reply} : Authenticating (.hgetall reply) (.resolving r) r (some reply)

/-- What a step of a request can do. -/
inductive Step [Transcendental K] (x : Shared K) : Input K → Point K → Shared K × Point K → Prop
  where
  | ask {r} : asksRedis platform config r = true → Step x .begin (.received r) (x, .resolving r)
  | unauthorized {i p r reply u} : Authenticating platform config i p r reply →
      tenantOf platform config reply r = .error u →
      Step x i p ({ x with counters := x.counters.incAuthFailures u.reason },
        .refused r none (.unauthorized u))
  | notReady {i p r reply tenant} : Authenticating platform config i p r reply →
      tenantOf platform config reply r = .ok tenant → config.router = none →
      Step x i p (x, .refused r none .notReady)
  | noClient {i p r reply tenant} : Authenticating platform config i p r reply →
      tenantOf platform config reply r = .ok tenant → config.redis = false →
      Step x i p (x, .refused r none .limiterRaised)
  | call {i p r reply tenant} : Authenticating platform config i p r reply →
      tenantOf platform config reply r = .ok tenant → config.rateLimiter = true →
      Step x i p (x, .limiting r tenant (.start (checkOf r tenant)))
  | unlimited {i p r reply tenant} : Authenticating platform config i p r reply →
      tenantOf platform config reply r = .ok tenant → config.rateLimiter = false →
      Step x i p (x, .admitted ⟨r, tenant, none⟩)
  | evaluate {r tenant call i l q} : RateLimit.resume i x.limiter call = some (l, q) →
      Pending q →
      Step x (.limiter i) (.limiting r tenant call) ({ x with limiter := l }, .limiting r tenant q)
  | allow {r tenant call i l c info} :
      RateLimit.resume i x.limiter call = some (l, .returned c info) → info.allowed = true →
      Step x (.limiter i) (.limiting r tenant call)
        ({ x with
            limiter := l
            counters := x.counters.incExceeded tenant.tenantId info.exceeded },
          .admitted ⟨r, tenant, some (.returned c info)⟩)
  | deny {r tenant call i l c info} :
      RateLimit.resume i x.limiter call = some (l, .returned c info) → info.allowed = false →
      Step x (.limiter i) (.limiting r tenant call)
        ({ x with
            limiter := l
            counters := x.counters.incExceeded tenant.tenantId info.exceeded },
          .refused r (some (.returned c info)) .rateLimitExceeded)
  | limiterRaised {r tenant call i l c} :
      RateLimit.resume i x.limiter call = some (l, .raised c) →
      Step x (.limiter i) (.limiting r tenant call)
        ({ x with limiter := l }, .refused r (some (.raised c)) .limiterRaised)
  | unserved {a router draw e} : config.router = some router →
      router.sampleWorker x.field (capContext platform a.request)
        (governedWeights config router a.tenant) draw = .error e →
      Step x (.sample draw) (.admitted a) (x, .unserved a e)
  | stream {a router draw worker} : config.router = some router →
      router.sampleWorker x.field (capContext platform a.request)
        (governedWeights config router a.tenant) draw = .ok worker →
      Step x (.sample draw) (.admitted a) (x, .streaming a worker (.start x.field))
  | dispatch {a router draw worker} : config.router = some router →
      router.sampleWorker x.field (capContext platform a.request)
        (governedWeights config router a.tenant) draw = .ok worker →
      Step x (.sample draw) (.admitted a) (x, .executing a worker)
  | execute {a worker ended} :
      Step x (.execute ended) (.executing a worker)
        (x, .executed a worker (Router.Outcome.result worker ended.outcome) ended.text)
  | depositRaised {a worker result text hex now e field} :
      Router.finish x.field worker (capContext platform a.request) result = (.error e, field) →
      Step x (.answer hex now) (.executed a worker result text)
        ({ x with field := field }, .served a worker .depositRaised)
  | answer {a worker result text hex now routed field doc} :
      Router.finish x.field worker (capContext platform a.request) result = (.ok routed, field) →
      document a.request hex now result text = some doc →
      Step x (.answer hex now) (.executed a worker result text)
        ({ x with
            field := field
            counters := x.counters.incRequests result.nodeId (statusOf result) },
          .served a worker (.json result doc))
  | usageRaised {a worker result text hex now routed field} :
      Router.finish x.field worker (capContext platform a.request) result = (.ok routed, field) →
      document a.request hex now result text = none →
      Step x (.answer hex now) (.executed a worker result text)
        ({ x with
            field := field
            counters := x.counters.incRequests result.nodeId (statusOf result) },
          .served a worker (.usageRaised result))
  | chunk {a worker p c created} :
      Step x (.chunk c created) (.streaming a worker p)
        (x, .sending a worker
          (p.yield (.data (a.request.frame created worker p.chunkCount c))) c)
  | next {a worker p c q} : depositChunk { p with field := x.field } worker c = (.ok (), q) →
      Step x .next (.sending a worker p c) ({ x with field := q.field }, .streaming a worker q)
  | broken {a worker p c e q} : depositChunk { p with field := x.field } worker c = (.error e, q) →
      Step x .next (.sending a worker p c)
        ({ x with field := q.field }, .served a worker (.broken
          ((q.yield (.data (Streaming.errorFrame (platform.str e)))).yield .done)))
  | close {a worker p c} :
      Step x .close (.sending a worker p c) (x, .served a worker (.disconnected p))
  | finish {a worker p ending} :
      Step x (.finish ending) (.streaming a worker p)
        (x, .served a worker (.streamed (closed p ending)))
  | abort {a worker} : Step x .abort (.executing a worker) (x, .served a worker .aborted)
  | cancel {a worker p} :
      Step x .abort (.streaming a worker p) (x, .served a worker (.cancelled (p.yield .done)))

variable {platform config}

theorem step_of_authenticating [Transcendental K] {i : Input K} {p : Point K} {r : Request}
    {reply : Option (Except String (Dict Bytes Bytes))}
    (h : Authenticating platform config i p r reply) (x : Shared K) :
    Step platform config x i p (authenticated config x r (tenantOf platform config reply r)) := by
  cases htenant : tenantOf platform config reply r with
  | error u => exact .unauthorized h htenant
  | ok tenant =>
    simp only [authenticated, enter]
    split
    · exact .notReady h htenant ‹_›
    · split_ifs with hlimiter hredis
      · exact .call h htenant hlimiter
      · exact .noClient h htenant (Bool.eq_false_iff.mpr hredis)
      · exact .unlimited h htenant (Bool.eq_false_iff.mpr hlimiter)

/-- What one step of a request can do, said once. -/
theorem step_of_resume [Transcendental K] {i : Input K} {x : Shared K} {p : Point K}
    {next : Shared K × Point K} (h : resume platform config i x p = some next) :
    Step platform config x i p next := by
  cases p with
  | received r =>
    cases i <;> try cases h
    cases hask : asksRedis platform config r with
    | true =>
      simp only [resume, hask, if_true, Option.some.injEq] at h
      exact h ▸ .ask hask
    | false =>
      simp only [resume, hask, Bool.false_eq_true, if_false, Option.some.injEq] at h
      exact h ▸ step_of_authenticating (.unasked hask) x
  | resolving r =>
    cases i <;> cases h
    exact step_of_authenticating .replied x
  | limiting r tenant call =>
    cases i <;> try cases h
    obtain ⟨⟨l, q⟩, hl, rfl⟩ := Option.map_eq_some_iff.mp h
    cases q with
    | start | window => exact .evaluate hl trivial
    | raised c => exact .limiterRaised hl
    | returned c info =>
      cases hallowed : info.allowed with
      | true => simpa [limited, hallowed] using Step.allow hl hallowed
      | false => simpa [limited, hallowed] using Step.deny hl hallowed
  | admitted a =>
    cases i <;> try cases h
    obtain ⟨router, hrouter, rfl⟩ := Option.map_eq_some_iff.mp h
    unfold sampled
    split
    · exact .unserved hrouter ‹_›
    · split_ifs
      · exact .stream hrouter ‹_›
      · exact .dispatch hrouter ‹_›
  | executing a worker =>
    cases i <;> cases h
    · exact .execute
    · exact .abort
  | executed a worker result text =>
    cases i <;> cases h
    unfold answered
    split
    · exact .depositRaised ‹_›
    · split
      · exact .answer ‹_› ‹_›
      · exact .usageRaised ‹_› ‹_›
  | streaming a worker p =>
    cases i <;> cases h
    · exact .chunk
    · exact .finish
    · exact .cancel
  | sending a worker p c =>
    cases i <;> cases h
    · unfold resumed
      split
      · exact .broken ‹_›
      · exact .next ‹_›
    · exact .close
  | refused | unserved | served => cases i <;> cases h

variable (platform config)

/-- The server: requests come in, and the decay engine ticks. -/
def ingress [Transcendental K] : Tasks.Program (Shared K) Request (Input K) K (Point K) where
  entry := .received
  resume := resume platform config
  external := fun rate x => some { x with field := (x.field.applyEvaporation rate).2 }

end Program

abbrev IngressEvent (K : Type*) := Tasks.Event Nat Request (Input K) K

abbrev IngressState (K : Type*) := Tasks.State Nat (Shared K) (Point K)

end StigmergicMesh.Server
