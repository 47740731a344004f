import StigmergicMesh.Streaming.Failures

/-!
# The capability match of a streamed request

Both endpoints analyse the prompt into a capability context and hand it to the router, which
deposits the match of the chosen worker. When the request streams, they hand the context to the
generator to choose a worker with, and a match of 0.5 to deposit. What `str.lower` does to a prompt
is a parameter.
-/

namespace StigmergicMesh.Streaming

open Router

variable {K : Type*}

/-! ## The prompt -/

/-- `_THINKING_PATTERNS`. -/
def thinkingPatterns : List String :=
  ["think", "reason", "step by step", "explain", "why", "because", "analyze", "analysis",
    "chain of thought", "let's think", "</thinking>"]

/-- `_LONG_PROMPT_THRESHOLD`. -/
def longPromptThreshold : Nat := 500

/-- `_SHORT_PROMPT_THRESHOLD`. -/
def shortPromptThreshold : Nat := 100

/-- `any(p in lowered for p in _THINKING_PATTERNS)`. -/
def hasThinking (lowered : String) : Bool :=
  thinkingPatterns.any fun p => p.toList <:+: lowered.toList

section Handlers

variable [Field K]

/-- `analyze_prompt`. -/
def analyzePrompt (lower : String → String) (prompt : String) : Dict String K :=
  let context : Dict String K :=
    if hasThinking (lower prompt) then (Dict.empty.set "llm" 1.5).set "reasoning" 1.5
    else if prompt.length < shortPromptThreshold then
      ((Dict.empty.set "slm" 1.5).set "fast" 1.3).set "low-latency" 1.2
    else Dict.empty
  if longPromptThreshold < prompt.length then
    (context.set "llm" (context.getD "llm" 1.0 * 1.5)).set "balanced" 1.2
  else context

structure ChatMessage where
  role : String
  content : String

/-- `_messages_to_prompt`. -/
def messagesToPrompt (messages : List ChatMessage) : String :=
  let parts := messages.map fun msg =>
    (if msg.role = "user" then "User" else "Assistant") ++ ": " ++ msg.content
  "\n".intercalate parts ++ "\nAssistant:"

example : messagesToPrompt [⟨"user", "Hello"⟩, ⟨"system", "Hi"⟩] =
    "User: Hello\nAssistant: Hi\nAssistant:" := by decide

end Handlers

/-! ## The match with a prompt -/

section Match

variable [Field K]

variable [LinearOrder K] [IsStrictOrderedRing K]

end Match

/-! ## The handlers -/

section Handlers

variable [Field K] [LinearOrder K]

/-- The fields of the request models that are read here. -/
structure CompletionRequest where
  prompt : String
  stream : Bool

structure ChatCompletionRequest where
  messages : List ChatMessage
  stream : Bool

/-- What a handler lets happen: a generator to drain, or a call of `route` with its deposit. -/
inductive Answer (K : Type*) where
  | streamed (result : Except FieldError (Progress K))
  | routed (deposits : List (String × Trace K))
      (result : Except FieldError (InferenceResult K × String) × InMemoryField K)

def Answer.deposits : Answer K → List (String × Trace K)
  | .streamed (.ok p) => p.deposits
  | .streamed (.error _) => []
  | .routed deposits _ => deposits

variable [Transcendental K] (lower : String → String) (router : Router K)
  (field : InMemoryField K) (baseWeights : Option (Dict String K)) (draw : Nat)
  (clock : Nat → Int) (str : FieldError → String) (execution : Worker → WorkerStream K)
  (outcome : Outcome K)

/-- The deposit of `route`. -/
def routeDeposits (capabilityContext : Option (Dict String K)) : List (String × Trace K) :=
  match router.sampleWorker field capabilityContext baseWeights draw with
  | .error _ => []
  | .ok worker =>
    let result := Outcome.result worker outcome
    [(result.nodeId, traceOf worker capabilityContext result)]

/-- `completions`, once the tenant is governed and admitted. -/
def completions (request : CompletionRequest) : Answer K :=
  let capContext := analyzePrompt lower request.prompt
  if request.stream then
    .streamed (streamCompletion router field (some capContext) 0.5 baseWeights draw clock str
      execution)
  else
    .routed (routeDeposits router field baseWeights draw outcome (some capContext))
      (router.route field (some capContext) baseWeights draw outcome)

/-- `chat_completions`, once the tenant is governed and admitted. -/
def chatCompletions (request : ChatCompletionRequest) : Answer K :=
  let prompt := messagesToPrompt request.messages
  let capContext := analyzePrompt lower prompt
  if request.stream then
    .streamed (streamChatCompletion router field (some capContext) 0.5 baseWeights draw clock str
      execution)
  else
    .routed (routeDeposits router field baseWeights draw outcome (some capContext))
      (router.route field (some capContext) baseWeights draw outcome)

end Handlers

section Signal

variable [Field K] [LinearOrder K]

/-- What `route` does to the field is its deposit. -/
theorem run_routeDeposits [Transcendental K] (router : Router K) (field : InMemoryField K)
    (baseWeights : Option (Dict String K)) (draw : Nat) (outcome : Outcome K)
    (capabilityContext : Option (Dict String K)) :
    (router.route field capabilityContext baseWeights draw outcome).2 =
      field.run ((routeDeposits router field baseWeights draw outcome capabilityContext).map
        fun d => .depositTrace d.1 d.2) := by
  cases h : router.sampleWorker field capabilityContext baseWeights draw with
  | error e => simp [route, routeDeposits, h, InMemoryField.run]
  | ok worker =>
    rw [route_field h]
    simp [routeDeposits, h, InMemoryField.run, InMemoryField.exec]

end Signal

/-! ## A question -/

/-- A stream of one token. -/
noncomputable def oneToken : WorkerStream ℝ :=
  ⟨[⟨some "Hi", some 0.5, some true, some 1, some true, some 0, some true⟩], .finished⟩

end StigmergicMesh.Streaming
