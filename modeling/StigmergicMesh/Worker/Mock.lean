import StigmergicMesh.Worker.Node
import Mathlib.Algebra.Field.Rat

/-!
# The mock worker

`CPUMockWorkerNode` draws the length of its answer from an interval whose lower end is ten at least,
also when fewer tokens are asked for; `mock_serves_iff` says for which requests this is no loss.
-/

namespace StigmergicMesh.WorkerNode

variable {K : Type*}

/-- The attributes that the methods read. -/
structure CPUMockWorkerNode (K : Type*) where
  nodeId : String
  baseDelaySec : K
  loadFactor : K
  successRate : K

namespace CPUMockWorkerNode

/-- `asyncio.sleep`; the time it takes is not modelled. -/
def sleep : Coroutine String Unit := .suspends none (.pure () ()) (.raise ())

@[simp] theorem exit_sleep : sleep.exit = ((), .returned ()) := rfl

/-- `random.randint`, drawing from `source`. -/
def randint (str : Int → Int → String) (source : Nat) (a b : Int) : Except String Int :=
  if b < a then .error (str a b) else .ok (a + source % (b - a + 1))

/-- The locals, with how often the clock has been read since `request_start`. -/
structure Locals where
  tokensSent : Int
  readings : Nat

section Methods

variable [Field K] [LinearOrder K] (str : Int → Int → String) (node : CPUMockWorkerNode K)

/-- The length of an answer. -/
def drawTokens (source : Nat) (maxTokens : Int) : Except String Int :=
  randint str source (max 10 (maxTokens / 4)) maxTokens

def delay (startLoad : Int) : K := node.baseDelaySec * (1 + startLoad * node.loadFactor)

/-- The `try` of `execute_inference`; `luck` is what `random.random` returns. -/
def executeInference (source : Nat) (luck : K) (prompt : String) (maxTokens : Int)
    (startLoad : Int) : Gen Locals (Int → TokenChunk K) String (Int → Result K) :=
  (Gen.await ⟨0, 0⟩ sleep).bind fun _ l =>
    match drawTokens str source maxTokens with
    | .error message => .raise l (.exception message)
    | .ok tokens => .pure l fun load =>
      { nodeId := node.nodeId
        prompt := prompt
        maxTokens := maxTokens
        tokens := .number tokens
        latencySec := node.delay startLoad
        success := .bool (luck < node.successRate)
        text := none
        error := none
        activeLoad := max 0 load }

/-- A chunk of `execute_streaming`. -/
def chunk (text : String) (latencySec : K) (isFirstToken : Bool) (tokenCount totalTokens : Int)
    (success done : Bool) (load : Int) : TokenChunk K where
  chunkText := .string text
  latencySec := latencySec
  isFirstToken := isFirstToken
  tokenCount := tokenCount
  totalTokens := totalTokens
  success := success
  activeLoad := max 0 (load - 1)
  nodeId := node.nodeId
  error := none
  done := done

variable (clock : Nat → K)

/-- The `for` over the remaining tokens, which reads the clock three times for each. -/
def streamRemaining (success : Bool) : Nat → Locals → Gen Locals (Int → TokenChunk K) String Unit
  | 0, l => .pure l ()
  | n + 1, l =>
    (Gen.await l sleep).bind fun _ l =>
      let l : Locals := ⟨l.tokensSent + 1, l.readings + 3⟩
      (Gen.yield l (node.chunk ("Token " ++ toString l.tokensSent ++ "\n")
        (clock l.readings - clock 0) false 1 l.tokensSent success false)).bind fun _ l =>
          streamRemaining success n l

/-- The `try` of `execute_streaming`. -/
def executeStreaming (source : Nat) (luck : K) (maxTokens : Int) (startLoad : Int) :
    Gen Locals (Int → TokenChunk K) String Unit :=
  match drawTokens str source maxTokens with
  | .error message => .raise ⟨0, 0⟩ (.exception message)
  | .ok totalTokens =>
    let success : Bool := luck < node.successRate
    (Gen.await ⟨0, 0⟩ sleep).bind fun _ l =>
      (Gen.yield l (node.chunk "Simulating token stream...\n" (node.delay startLoad * 0.3) true 1 1
        success false)).bind fun _ l =>
          (streamRemaining node clock success (totalTokens - 1).toNat
            { l with tokensSent := 1 }).bind
              fun _ l => .yield l (node.chunk "" (clock (l.readings + 1) - clock 0) false 0
                totalTokens success true)

end Methods

/-! ## What is served -/

/-- The loop of chunks is closed by a final one: `n` tokens, numbered from one on, of which the
first is marked as such, and a chunk with their number. -/
structure Tokens (n : Int) (tokens : List (TokenChunk K)) (last : TokenChunk K) : Prop where
  length : (tokens.length : Int) = n
  numbered : ∀ (k : Nat) c, tokens[k]? = some c → c.totalTokens = (k : Int) + 1
  first : ∀ (k : Nat) c, tokens[k]? = some c → (c.isFirstToken = true ↔ k = 0)
  unfinished : ∀ c ∈ tokens, c.done = false
  done : last.done = true ∧ last.isFirstToken = false ∧ last.totalTokens = n

/-- Both methods complete, with a number of tokens from one up to the bound. -/
structure Serves (maxTokens : Int)
    (inference : Gen Locals (Int → TokenChunk K) String (Int → Result K))
    (streaming : Gen Locals (Int → TokenChunk K) String Unit) (load : Nat → Int) : Prop where
  inference : ∃ result, inference.exit.2 = .returned result ∧
    ∃ tokens : Int, (∀ load, (result load).tokens = .number tokens) ∧ 1 ≤ tokens ∧
      tokens ≤ maxTokens
  streaming : streaming.exit.2 = .returned () ∧
    ∃ tokens last n, emitted load streaming = tokens ++ [last] ∧ Tokens n tokens last ∧ 1 ≤ n ∧
      n ≤ maxTokens

/-- The interval is empty for the small requests, and lies within the bounds for the others. -/
theorem drawTokens_spec (str : Int → Int → String) (source : Nat) (maxTokens : Int) :
    (10 ≤ maxTokens → ∃ n, drawTokens str source maxTokens = .ok n ∧ 10 ≤ n ∧ n ≤ maxTokens) ∧
      (maxTokens < 10 → ∃ message, drawTokens str source maxTokens = .error message) := by
  unfold drawTokens randint
  constructor
  · intro h
    have hlow : max 10 (maxTokens / 4) ≤ maxTokens := by omega
    have hmod := Int.emod_nonneg source (b := maxTokens - max 10 (maxTokens / 4) + 1) (by omega)
    have hlt := Int.emod_lt_of_pos source (b := maxTokens - max 10 (maxTokens / 4) + 1) (by omega)
    exact ⟨_, if_neg (by omega), by omega, by omega⟩
  · intro h
    exact ⟨_, if_pos (by omega)⟩

section Drained

variable [Field K] [LinearOrder K] (str : Int → Int → String) (node : CPUMockWorkerNode K)
  (clock : Nat → K)

omit [LinearOrder K] in
/-- The tokens that the loop adds. -/
theorem streamRemaining_spec (success : Bool) (n : Nat) (l : Locals) :
    let g := streamRemaining node clock success n l
    g.outputs.length = n ∧ (∃ l', g.exit = (l', .returned ())) ∧
      ∀ (k : Nat) c, g.outputs[k]? = some c → ∀ load, (c load).totalTokens = l.tokensSent + k + 1 ∧
        (c load).isFirstToken = false ∧ (c load).done = false := by
  induction n generalizing l with
  | zero => exact ⟨rfl, ⟨l, rfl⟩, by simp [streamRemaining]⟩
  | succ n ih =>
    obtain ⟨hlength, hexit, hchunks⟩ := ih ⟨l.tokensSent + 1, l.readings + 3⟩
    simp only [streamRemaining, Gen.outputs_bind, Gen.exit_bind, Gen.exit_await, Gen.outputs_await,
      exit_sleep, Gen.outputs_yield, Gen.exit_yield, List.nil_append, List.singleton_append]
    refine ⟨by simp [hlength], hexit, ?_⟩
    rintro (_ | k) c hc load
    · obtain rfl := Option.some.inj hc
      simp [chunk]
    · obtain ⟨htotal, hrest⟩ := hchunks k c hc load
      refine ⟨?_, hrest⟩
      rw [htotal]
      push_cast
      omega

omit [Field K] [LinearOrder K] in
/-- A first chunk and the ones that the loop adds, as they read when they are yielded. -/
theorem Tokens.of_first {n : Int} (hn : 1 ≤ n) {first : Int → TokenChunk K}
    {rest : List (Int → TokenChunk K)} {last : TokenChunk K}
    (hfirst : ∀ load, (first load).totalTokens = 1 ∧ (first load).isFirstToken = true ∧
      (first load).done = false)
    (hlength : rest.length = (n - 1).toNat)
    (hrest : ∀ (k : Nat) c, rest[k]? = some c → ∀ load, (c load).totalTokens = 1 + k + 1 ∧
      (c load).isFirstToken = false ∧ (c load).done = false)
    (hlast : last.done = true ∧ last.isFirstToken = false ∧ last.totalTokens = n)
    (load : Nat → Int) : Tokens n ((first :: rest).mapIdx fun i c => c (load i)) last := by
  have hnth : ∀ (k : Nat) c, ((first :: rest).mapIdx fun i c => c (load i))[k]? = some c →
      c.totalTokens = (k : Int) + 1 ∧ (c.isFirstToken = true ↔ k = 0) ∧ c.done = false := by
    intro k c hc
    rw [List.getElem?_mapIdx] at hc
    obtain ⟨f, hf, rfl⟩ := Option.map_eq_some_iff.mp hc
    cases k with
    | zero =>
      obtain rfl := Option.some.inj hf
      obtain ⟨htotal, hmark, hdone⟩ := hfirst (load 0)
      simp [htotal, hmark, hdone]
    | succ k =>
      obtain ⟨htotal, hmark, hdone⟩ := hrest k f hf (load (k + 1))
      refine ⟨?_, by simp [hmark], hdone⟩
      rw [htotal]
      push_cast
      omega
  refine ⟨?_, fun k c hc => (hnth k c hc).1, fun k c hc => (hnth k c hc).2.1, ?_, hlast⟩
  · simp only [List.length_mapIdx, List.length_cons, hlength]
    omega
  · intro c hc
    obtain ⟨k, hk⟩ := List.mem_iff_getElem?.mp hc
    exact (hnth k c hk).2.2

/-- A drained generator with a draw yields its tokens and the final chunk. -/
theorem executeStreaming_spec {source : Nat} {maxTokens n : Int}
    (hdraw : drawTokens str source maxTokens = .ok n) (hn : 1 ≤ n) (luck : K) (startLoad : Int)
    (load : Nat → Int) :
    let g := executeStreaming str node clock source luck maxTokens startLoad
    g.exit.2 = .returned () ∧
      ∃ tokens last, emitted load g = tokens ++ [last] ∧ Tokens n tokens last := by
  intro g
  obtain ⟨hlength, ⟨l, hexit⟩, hchunks⟩ :=
    streamRemaining_spec node clock (luck < node.successRate) (n - 1).toNat ⟨1, 0⟩
  obtain ⟨first, final, houtputs, hfirst, hfinal⟩ : ∃ first final : Int → TokenChunk K,
      g.outputs = (first :: (streamRemaining node clock (luck < node.successRate) (n - 1).toNat
        ⟨1, 0⟩).outputs) ++ [final] ∧
      (∀ load, (first load).totalTokens = 1 ∧ (first load).isFirstToken = true ∧
        (first load).done = false) ∧
      ∀ load, (final load).done = true ∧ (final load).isFirstToken = false ∧
        (final load).totalTokens = n := by
    simp only [g, executeStreaming, hdraw, Gen.outputs_bind, Gen.exit_await, Gen.outputs_await,
      exit_sleep, Gen.exit_yield, Gen.outputs_yield, hexit]
    exact ⟨_, _, rfl, fun _ => ⟨rfl, rfl, rfl⟩, fun _ => ⟨rfl, rfl, rfl⟩⟩
  refine ⟨?_, _, _, (by rw [emitted, houtputs]; exact List.mapIdx_concat),
    .of_first hn hfirst hlength hchunks (hfinal _) load⟩
  simp only [g, executeStreaming, hdraw, Gen.exit_bind, Gen.exit_await, exit_sleep,
    Gen.exit_yield, hexit]

/-- The worker serves a request exactly if it asks for ten tokens at least: below that the interval
of the draw is empty, and both methods raise. -/
theorem mock_serves_iff (maxTokens : Int) (prompt : String) (source source' : Nat) (luck luck' : K)
    (startLoad startLoad' : Int) (load : Nat → Int) :
    Serves maxTokens (executeInference str node source luck prompt maxTokens startLoad)
      (executeStreaming str node clock source' luck' maxTokens startLoad') load ↔
        10 ≤ maxTokens := by
  constructor
  · rintro ⟨⟨result, hexit, -⟩, -⟩
    by_contra hsmall
    obtain ⟨message, hdraw⟩ := (drawTokens_spec str source maxTokens).2 (by omega)
    simp [executeInference, Gen.exit_bind, hdraw] at hexit
  · intro h
    obtain ⟨n, hdraw, hn, hle⟩ := (drawTokens_spec str source maxTokens).1 h
    obtain ⟨n', hdraw', hn', hle'⟩ := (drawTokens_spec str source' maxTokens).1 h
    obtain ⟨hexit, tokens, last, hemitted, htokens⟩ := executeStreaming_spec str node clock hdraw'
      (by omega) luck' startLoad' load
    refine ⟨?_, hexit, tokens, last, n', hemitted, htokens, by omega, hle'⟩
    simp only [executeInference, Gen.exit_bind, Gen.exit_await, exit_sleep, hdraw]
    exact ⟨_, rfl, n, fun _ => rfl, by omega, hle⟩

end Drained

/-- A request for five tokens, which the request models admit, is not served. -/
theorem mock_does_not_serve_five :
    ¬Serves 5
      (executeInference (fun _ _ => "empty range") ⟨"cpu-1", 0.05, 0.5, (1 : ℚ)⟩ 0 0.5 "Hi" 5 1)
      (executeStreaming (fun _ _ => "empty range") ⟨"cpu-1", 0.05, 0.5, (1 : ℚ)⟩ (fun n => n) 0 0.5
        5 1) fun _ => 1 := by
  rintro ⟨⟨result, hexit, -⟩, -⟩
  cases hexit

end CPUMockWorkerNode

end StigmergicMesh.WorkerNode
