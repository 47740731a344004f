import StigmergicMesh.Library.Json
import StigmergicMesh.Router.Route

/-!
# The streaming generators

`stream_chat_completion` and `stream_completion` differ in the frames they yield and in the velocity
that the chat generator computes and drops, so over the exact numbers of this model they are one
definition over a `Format`; `Streaming.Velocity` has the chat generator with its division, which
raises for a number of tokens that no float holds. What the worker's `execute_streaming` yields and
how it ends is an input, the consumer drains the generator, and the trace deposits go to the
in-memory field. The generator keeps the list of the traces it has deposited; `drain_spec` says
which these are when the node has a row, and that the field is the result of depositing them.
-/

namespace StigmergicMesh.Streaming

variable {K : Type*}

/-! ## Input and output -/

/-- The keys of a worker's chunk that the generators read, which can be missing; the text is one of
`τ`. -/
structure Chunk (K : Type*) (τ : Type := String) where
  chunkText : Option τ
  latencySec : Option K
  isFirstToken : Option Bool
  tokenCount : Option Int
  success : Option Bool
  activeLoad : Option Int
  done : Option Bool

/-- How the iteration over `execute_streaming` ends; a call that raises has no chunks. -/
inductive Ending where
  | finished
  | raised (message : String)

structure WorkerStream (K : Type*) where
  chunks : List (Chunk K)
  ending : Ending

/-- A line of the response: `data: ` and a document, or `data: [DONE]`. -/
inductive Line where
  | data (document : Json)
  | done

/-- What the two endpoints write differently. -/
structure Format where
  idPrefix : String
  object : String
  choice : (text : Json) → (finishReason : Json) → Json

def chatFormat : Format where
  idPrefix := "chatcmpl-"
  object := "chat.completion.chunk"
  choice := fun text finishReason =>
    .object [("index", .number 0), ("delta", .object [("content", text)]),
      ("finish_reason", finishReason)]

def completionFormat : Format where
  idPrefix := "cmpl-"
  object := "text_completion"
  choice := fun text finishReason =>
    .object [("index", .number 0), ("text", text), ("finish_reason", finishReason)]

namespace Chunk

variable {τ : Type} [Zero K]

def elapsed (c : Chunk K τ) : K := c.latencySec.getD 0

def isFirst (c : Chunk K τ) : Bool := c.isFirstToken.getD false

def tokens (c : Chunk K τ) : Int := c.tokenCount.getD 0

end Chunk

/-- A frame, with the text of its chunk. -/
def Format.frameOf (fmt : Format) (created : Int) (worker : Worker) (chunkCount : Nat) (text : Json)
    (done : Bool) : Json :=
  .object [("id", .string (fmt.idPrefix ++ toString chunkCount)), ("object", .string fmt.object),
    ("created", .number created), ("model", .string worker.nodeId),
    ("choices", .array [fmt.choice text (if done then .string "stop" else .null)])]

/-- The frame of a chunk. -/
def Format.frame (fmt : Format) (created : Int) (worker : Worker) (chunkCount : Nat)
    (c : Chunk K) : Json :=
  fmt.frameOf created worker chunkCount (.string (c.chunkText.getD "")) (c.done.getD false)

/-- The frame of an exception. -/
def errorFrame (message : String) : Json :=
  .object [("error", .object [("message", .string message), ("type", .string "streaming_error")])]

/-! ## The generator -/

/-- The field, what has been yielded and deposited, and the locals. -/
structure Progress (K : Type*) where
  field : InMemoryField K
  lines : List Line
  deposits : List (String × Trace K)
  chunkCount : Nat
  ttftDeposited : Bool

namespace Progress

variable [Field K] [LinearOrder K]

def start (field : InMemoryField K) : Progress K := ⟨field, [], [], 0, false⟩

def yield (p : Progress K) (line : Line) : Progress K := { p with lines := p.lines ++ [line] }

/-- `await memory_field.deposit_trace(...)`. -/
def deposit (p : Progress K) (nodeId : String) (t : Trace K) :
    Except FieldError Unit × Progress K :=
  match p.field.depositTrace nodeId t with
  | (.error e, field) => (.error e, { p with field := field })
  | (.ok (), field) =>
    (.ok (), { p with field := field, deposits := p.deposits ++ [(nodeId, t)] })

/-- The deposit of the first token. -/
def depositTtft (p : Progress K) (worker : Worker) (capabilityMatch : K) {τ : Type}
    (c : Chunk K τ) : Except FieldError Unit × Progress K :=
  if c.isFirst && !p.ttftDeposited then
    match p.deposit worker.nodeId
      ⟨c.elapsed, c.tokens, c.success.getD true, c.activeLoad.getD 0, capabilityMatch⟩ with
    | (.error e, p) => (.error e, p)
    | (.ok (), p) => (.ok (), { p with ttftDeposited := true })
  else (.ok (), p)

/-- The deposit of a batch of tokens. -/
def depositVelocity (p : Progress K) (worker : Worker) (capabilityMatch : K) {τ : Type}
    (c : Chunk K τ) : Except FieldError Unit × Progress K :=
  if 0 < c.elapsed ∧ 0 < c.tokens then
    p.deposit worker.nodeId ⟨c.elapsed, c.tokens, true, c.activeLoad.getD 0, capabilityMatch⟩
  else (.ok (), p)

/-- The body of the `async for`. -/
def onChunk (fmt : Format) (created : Int) (worker : Worker) (capabilityMatch : K)
    (p : Progress K) (c : Chunk K) : Except FieldError Unit × Progress K :=
  match (p.yield (.data (fmt.frame created worker p.chunkCount c))).depositTtft worker
    capabilityMatch c with
  | (.error e, p) => (.error e, p)
  | (.ok (), p) =>
    match p.depositVelocity worker capabilityMatch c with
    | (.error e, p) => (.error e, p)
    | (.ok (), p) => (.ok (), { p with chunkCount := p.chunkCount + 1 })

/-- The loop; `clock` shows the time at each frame. -/
def drain (fmt : Format) (clock : Nat → Int) (worker : Worker) (capabilityMatch : K) :
    List (Chunk K) → Progress K → Except FieldError Unit × Progress K
  | [], p => (.ok (), p)
  | c :: chunks, p =>
    match p.onChunk fmt (clock p.chunkCount) worker capabilityMatch c with
    | (.error e, p) => (.error e, p)
    | (.ok (), p) => drain fmt clock worker capabilityMatch chunks p

end Progress

variable [Field K] [LinearOrder K]

/-- The `try` statement. `str` renders the exceptions of the field. -/
def stream (fmt : Format) (clock : Nat → Int) (str : FieldError → String) (worker : Worker)
    (field : InMemoryField K) (capabilityMatch : K) (s : WorkerStream K) : Progress K :=
  match Progress.drain fmt clock worker capabilityMatch s.chunks (.start field) with
  | (.error e, p) => (p.yield (.data (errorFrame (str e)))).yield .done
  | (.ok (), p) =>
    match s.ending with
    | .raised message => (p.yield (.data (errorFrame message))).yield .done
    | .finished => p.yield .done

section Generators

variable [Transcendental K] (router : Router K) (field : InMemoryField K)
  (capabilityContext : Option (Dict String K)) (capabilityMatch : K)
  (weightsOverride : Option (Dict String K)) (draw : Nat) (clock : Nat → Int)
  (str : FieldError → String) (execution : Worker → WorkerStream K)

/-- A generator over a format: the worker is sampled before the `try`. `execution` is what the
worker's `execute_streaming` does. -/
def generate (fmt : Format) : Except FieldError (Progress K) :=
  match router.sampleWorker field capabilityContext weightsOverride draw with
  | .error e => .error e
  | .ok worker => .ok (stream fmt clock str worker field capabilityMatch (execution worker))

/-- `stream_chat_completion`, for numbers of tokens that a float holds. -/
def streamChatCompletion : Except FieldError (Progress K) :=
  generate router field capabilityContext capabilityMatch weightsOverride draw clock str execution
    chatFormat

/-- `stream_completion`. -/
def streamCompletion : Except FieldError (Progress K) :=
  generate router field capabilityContext capabilityMatch weightsOverride draw clock str execution
    completionFormat

end Generators

/-! ## The deposits of a stream -/

section Traces

variable {τ : Type}

/-- A trace of a chunk. -/
def Chunk.trace (capabilityMatch : K) (success : Bool) (c : Chunk K τ) : Trace K :=
  ⟨c.elapsed, c.tokens, success, c.activeLoad.getD 0, capabilityMatch⟩

/-- The trace that a chunk leaves as the first token. -/
def Chunk.ttftTraces (capabilityMatch : K) (ttftDeposited : Bool) (c : Chunk K τ) :
    List (Trace K) :=
  if c.isFirst && !ttftDeposited then [c.trace capabilityMatch (c.success.getD true)] else []

/-- The trace that it leaves as a batch of tokens. -/
def Chunk.velocityTraces (capabilityMatch : K) (c : Chunk K τ) : List (Trace K) :=
  if 0 < c.elapsed ∧ 0 < c.tokens then [c.trace capabilityMatch true] else []

/-- The traces of a stream. -/
def tracesOf (capabilityMatch : K) : Bool → List (Chunk K τ) → List (Trace K)
  | _, [] => []
  | ttftDeposited, c :: chunks =>
    c.ttftTraces capabilityMatch ttftDeposited ++ c.velocityTraces capabilityMatch ++
      tracesOf capabilityMatch (ttftDeposited || c.isFirst) chunks

end Traces

namespace Progress

/-- The progress after deposits for one node. -/
def after (p : Progress K) (nodeId : String) (traces : List (Trace K)) : Progress K :=
  { p with
    field := p.field.run (traces.map (.depositTrace nodeId))
    deposits := p.deposits ++ traces.map fun t => (nodeId, t) }

@[simp] theorem after_nil (p : Progress K) (n : String) : p.after n [] = p := by
  simp [after, InMemoryField.run]

theorem after_after (p : Progress K) (n : String) (ts us : List (Trace K)) :
    (p.after n ts).after n us = p.after n (ts ++ us) := by
  simp [after, InMemoryField.run]

/-- Deposits rewrite rows in place. -/
theorem field_after (p : Progress K) (n : String) (ts : List (Trace K)) :
    p.field.RowsOnly (p.after n ts).field := by
  induction ts generalizing p with
  | nil => exact .refl _
  | cons t ts ih =>
    have hone : p.field.RowsOnly (p.after n [t]).field := p.field.depositTrace_rowsOnly n t
    have htail := ih (p.after n [t])
    rw [after_after] at htail
    exact hone.trans htail

theorem deposit_eq {p : Progress K} (hf : p.field.Consistent) {n : String}
    (hn : n ∈ p.field.nodeIds) (t : Trace K) : p.deposit n t = (.ok (), p.after n [t]) := by
  obtain ⟨-, hresult, -, -⟩ := hf.depositTrace n t
  rw [if_pos hn] at hresult
  unfold deposit
  split
  · rename_i e field he
    rw [he] at hresult
    cases hresult
  · rename_i field he
    simp [after, InMemoryField.run, InMemoryField.exec, he]

section Known

variable {p : Progress K} (hf : p.field.Consistent) {worker : Worker}
  (hn : worker.nodeId ∈ p.field.nodeIds) (capabilityMatch : K)

include hf hn

theorem depositTtft_eq {τ : Type} (c : Chunk K τ) :
    p.depositTtft worker capabilityMatch c =
      (.ok (), { p.after worker.nodeId (c.ttftTraces capabilityMatch p.ttftDeposited) with
        ttftDeposited := p.ttftDeposited || c.isFirst }) := by
  unfold depositTtft Chunk.ttftTraces
  split
  · rename_i h
    obtain ⟨hfirst, -⟩ := Bool.and_eq_true_iff.mp h
    simp [deposit_eq hf hn, hfirst, Chunk.trace]
  · rename_i h
    have hflag : (p.ttftDeposited || c.isFirst) = p.ttftDeposited := by
      cases hp : p.ttftDeposited <;> cases hc : c.isFirst <;> simp [hp, hc] at h ⊢
    rw [after_nil, hflag]

theorem depositVelocity_eq {τ : Type} (c : Chunk K τ) :
    p.depositVelocity worker capabilityMatch c =
      (.ok (), p.after worker.nodeId (c.velocityTraces capabilityMatch)) := by
  unfold depositVelocity Chunk.velocityTraces
  split
  · exact deposit_eq hf hn _
  · rw [after_nil]

/-- What a chunk leaves. -/
theorem onChunk_eq (fmt : Format) (created : Int) (c : Chunk K) :
    p.onChunk fmt created worker capabilityMatch c =
      (.ok (), { (p.yield (.data (fmt.frame created worker p.chunkCount c))).after worker.nodeId
        (c.ttftTraces capabilityMatch p.ttftDeposited ++ c.velocityTraces capabilityMatch) with
          chunkCount := p.chunkCount + 1
          ttftDeposited := p.ttftDeposited || c.isFirst }) := by
  set q := p.yield (.data (fmt.frame created worker p.chunkCount c)) with hq
  have hrows := q.field_after worker.nodeId (c.ttftTraces capabilityMatch q.ttftDeposited)
  have hf' := hrows.consistent hf
  have hn' : worker.nodeId ∈ (q.after worker.nodeId
      (c.ttftTraces capabilityMatch q.ttftDeposited)).field.nodeIds := hrows.nodeIds ▸ hn
  have hvelocity := depositVelocity_eq (p := { q.after worker.nodeId
    (c.ttftTraces capabilityMatch q.ttftDeposited) with
      ttftDeposited := q.ttftDeposited || c.isFirst }) hf' hn' capabilityMatch c
  simp only [onChunk, ← hq, depositTtft_eq (p := q) hf hn capabilityMatch c, hvelocity]
  simp [after, InMemoryField.run, q, yield]

/-- What the chunks leave. -/
theorem drain_spec (fmt : Format) (clock : Nat → Int) (chunks : List (Chunk K)) :
    ∃ q, drain fmt clock worker capabilityMatch chunks p = (.ok (), q) ∧
      q.deposits = p.deposits ++
        (tracesOf capabilityMatch p.ttftDeposited chunks).map (worker.nodeId, ·) ∧
      q.field = p.field.run
        ((tracesOf capabilityMatch p.ttftDeposited chunks).map (.depositTrace worker.nodeId)) := by
  induction chunks generalizing p with
  | nil => exact ⟨p, rfl, by simp [tracesOf], by simp [tracesOf, InMemoryField.run]⟩
  | cons c chunks ih =>
    have hstep := onChunk_eq hf hn capabilityMatch fmt (clock p.chunkCount) c
    set traces := c.ttftTraces capabilityMatch p.ttftDeposited ++ c.velocityTraces capabilityMatch
      with htraces
    have hrows := p.field_after worker.nodeId traces
    obtain ⟨q, hq, hdeposits, hfield⟩ := ih (p := { (p.yield (.data (fmt.frame
      (clock p.chunkCount) worker p.chunkCount c))).after worker.nodeId traces with
        chunkCount := p.chunkCount + 1
        ttftDeposited := p.ttftDeposited || c.isFirst }) (hrows.consistent hf)
      (hrows.nodeIds ▸ hn)
    refine ⟨q, by simp only [drain, hstep, hq], ?_, ?_⟩
    · simp [hdeposits, after, yield, tracesOf, htraces]
    · simp [hfield, after, yield, tracesOf, htraces, InMemoryField.run]

end Known

end Progress

end StigmergicMesh.Streaming
