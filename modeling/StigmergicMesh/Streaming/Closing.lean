import StigmergicMesh.Library.Generator
import StigmergicMesh.Streaming.Velocity

/-!
# Generators that the consumer closes

The two generators with their `yield` points, over any memory field. A consumer that goes away
closes the generator at the frame it has received last. The `finally` of the generators yields the
last line, so only a generator that is suspended at this line can be closed.
-/

namespace StigmergicMesh.Streaming.Closing

open AnyField

variable {K F ε δ : Type*}

/-! ## The generators -/

section Generators

variable (fmt : Format) (clock : Nat → Int) (str : δ → String) (worker : Worker)
  (onChunk : Work K F ε → Chunk K → Except δ Unit × Work K F ε)

/-- The `async for`; `onChunk` is its body after the frame, `ending` is how the iteration over the
worker's chunks ends. -/
def loop (ending : Ending) : List (Chunk K) → Work K F ε → Gen (Work K F ε) Line String Unit
  | [], w =>
    match ending with
    | .raised message => .raise w (.exception message)
    | .finished => .pure w ()
  | c :: chunks, w =>
    (Gen.yield w (.data (fmt.frame (clock w.chunkCount) worker w.chunkCount c))).bind fun _ w =>
      match onChunk w c with
      | (.error e, w) => .raise w (.exception (str e))
      | (.ok (), w) => loop ending chunks w

/-- The `try` with its handler. -/
def body (field : F) (s : WorkerStream K) : Gen (Work K F ε) Line String Unit :=
  (loop fmt clock str worker onChunk s.ending s.chunks ⟨field, [], 0, false⟩).tryExcept
    fun message w => .yield w (.data (errorFrame message))

/-- The `try` statement. -/
def generator (field : F) (s : WorkerStream K) : Gen (Work K F ε) Line String Unit :=
  (body fmt clock str worker onChunk field s).tryFinally fun w => .yield w .done

end Generators

section Deposits

variable [Field K] [LinearOrder K] (depositTrace : F → String → Trace K → Except ε Unit × F)

/-- `stream_chat_completion` past its `sample_worker`. -/
def streamChatCompletion (clock : Nat → Int) (str : ε → String) (worker : Worker) (field : F)
    (capabilityMatch : K) (s : WorkerStream K) : Gen (Work K F ε) Line String Unit :=
  generator chatFormat clock (LoopError.str str) worker
    (fun w c => w.onChatChunk depositTrace worker capabilityMatch c) field s

/-- `stream_completion` past its `sample_worker`. -/
def streamCompletion (clock : Nat → Int) (str : ε → String) (worker : Worker) (field : F)
    (capabilityMatch : K) (s : WorkerStream K) : Gen (Work K F ε) Line String Unit :=
  generator completionFormat clock str worker
    (fun w c => w.onChunk depositTrace worker capabilityMatch c) field s

end Deposits

/-! ## A consumer that drains the generator -/

section Drained

variable {fmt : Format} {clock : Nat → Int} {worker : Worker}
  {onChunk : Work K F ε → Chunk K → Except δ Unit × Work K F ε}
  {drain : List (Chunk K) → Work K F ε → Drained K F ε δ}

/-- A loop over the chunks, without its `yield` points. -/
structure Drains (fmt : Format) (clock : Nat → Int) (worker : Worker)
    (onChunk : Work K F ε → Chunk K → Except δ Unit × Work K F ε)
    (drain : List (Chunk K) → Work K F ε → Drained K F ε δ) : Prop where
  nil : ∀ w, drain [] w = ⟨[], .ok (), [], w⟩
  raised : ∀ c chunks w e v, onChunk w c = (.error e, v) → drain (c :: chunks) w =
    ⟨[.data (fmt.frame (clock w.chunkCount) worker w.chunkCount c)], .error e, chunks, v⟩
  next : ∀ c chunks w v, onChunk w c = (.ok (), v) → drain (c :: chunks) w =
    { drain chunks v with
      lines := .data (fmt.frame (clock w.chunkCount) worker w.chunkCount c) ::
        (drain chunks v).lines }

/-- The loop yields the lines of the drained loop, does its work and ends as it does. -/
theorem Drains.loop_spec (h : Drains fmt clock worker onChunk drain) (str : δ → String)
    (ending : Ending) (chunks : List (Chunk K)) (w : Work K F ε) :
    let g := loop fmt clock str worker onChunk ending chunks w
    g.outputs = (drain chunks w).lines ∧
      g.exit = ((drain chunks w).work, match errorOf str ending (drain chunks w).result with
        | some message => .raised (.exception message)
        | none => .returned ()) := by
  induction chunks generalizing w with
  | nil => cases ending <;> simp [loop, h.nil, errorOf]
  | cons c chunks ih =>
    rcases hc : onChunk w c with ⟨e | u, v⟩
    · simp [loop, h.raised c chunks w e v hc, hc, errorOf, Gen.outputs_bind, Gen.exit_bind]
    · obtain ⟨houtputs, hexit⟩ := ih v
      simp [loop, h.next c chunks w v hc, hc, Gen.outputs_bind, Gen.exit_bind, houtputs, hexit]

/-- Drained, the generator yields the lines of the stream. -/
theorem Drains.outputs_generator (h : Drains fmt clock worker onChunk drain) (str : δ → String)
    (field : F) (s : WorkerStream K) :
    (generator fmt clock str worker onChunk field s).outputs =
      ((drain s.chunks ⟨field, [], 0, false⟩).handled str s.ending).lines := by
  obtain ⟨houtputs, hexit⟩ := h.loop_spec str s.ending s.chunks ⟨field, [], 0, false⟩
  rw [generator, Gen.outputs_tryFinally_yield, body, Gen.outputs_tryExcept, houtputs, hexit]
  rcases drain s.chunks ⟨field, [], 0, false⟩ with ⟨lines, e | u, rest, work⟩
  · simp [Drained.handled, errorOf]
  · cases s.ending <;> simp [Drained.handled, errorOf]

end Drained

section Deposits

variable [Field K] [LinearOrder K] (depositTrace : F → String → Trace K → Except ε Unit × F)
  (clock : Nat → Int) (str : ε → String) (worker : Worker) (field : F) (capabilityMatch : K)

theorem drains_drainChat :
    Drains chatFormat clock worker (fun w c => w.onChatChunk depositTrace worker capabilityMatch c)
      (drainChat depositTrace clock worker capabilityMatch) where
  nil _ := rfl
  raised _ _ _ _ _ h := by simp only [drainChat, h]
  next _ _ _ _ h := by simp only [drainChat, h]

theorem drains_drain (fmt : Format) :
    Drains fmt clock worker (fun w c => w.onChunk depositTrace worker capabilityMatch c)
      (drain depositTrace fmt clock worker capabilityMatch) where
  nil _ := rfl
  raised _ _ _ _ _ h := by simp only [drain, h]
  next _ _ _ _ h := by simp only [drain, h]

/-- Drained, the two generators are those that were written without `yield` points. -/
theorem outputs_streamChatCompletion (s : WorkerStream K) :
    (streamChatCompletion depositTrace clock str worker field capabilityMatch s).outputs =
      (AnyField.streamChatCompletion depositTrace clock str worker field capabilityMatch s).lines :=
  (drains_drainChat depositTrace clock worker capabilityMatch).outputs_generator
    (LoopError.str str) field s

theorem outputs_streamCompletion (s : WorkerStream K) :
    (streamCompletion depositTrace clock str worker field capabilityMatch s).outputs =
      (AnyField.streamCompletion depositTrace clock str worker field capabilityMatch s).lines :=
  (drains_drain depositTrace clock worker capabilityMatch completionFormat).outputs_generator
    str field s

end Deposits

/-! ## A consumer that closes it -/

section Closed

variable (fmt : Format) (clock : Nat → Int) (str : δ → String) (worker : Worker)
  (onChunk : Work K F ε → Chunk K → Except δ Unit × Work K F ε)

/-- The lines before the last one are documents. -/
theorem done_not_mem_loop (ending : Ending) (chunks : List (Chunk K)) (w : Work K F ε) :
    .done ∉ (loop fmt clock str worker onChunk ending chunks w).outputs := by
  induction chunks generalizing w with
  | nil => cases ending <;> simp [loop]
  | cons c chunks ih =>
    rcases hc : onChunk w c with ⟨e | u, v⟩
    · simp [loop, hc, Gen.outputs_bind]
    · simpa [loop, hc, Gen.outputs_bind] using ih v

theorem done_not_mem_body (field : F) (s : WorkerStream K) :
    .done ∉ (body fmt clock str worker onChunk field s).outputs := by
  rw [body, Gen.outputs_tryExcept, List.mem_append, not_or]
  refine ⟨done_not_mem_loop fmt clock str worker onChunk s.ending s.chunks _, ?_⟩
  split <;> simp

/-- A generator closes cleanly at its last line and nowhere else. -/
theorem closesAt_generator_iff (field : F) (s : WorkerStream K) (k : Nat) :
    let g := generator fmt clock str worker onChunk field s
    g.ClosesAt k ↔ g.outputs[k]? = some .done := by
  intro g
  have hdata := done_not_mem_body fmt clock str worker onChunk field s
  simp only [g, generator, Gen.closesAt_tryFinally_iff, Gen.outputs_tryFinally_yield]
  constructor
  · rintro rfl
    exact List.getElem?_concat_length ..
  · intro hdone
    rw [List.getElem?_append] at hdone
    split at hdone
    · exact (hdata (List.mem_of_getElem? hdone)).elim
    · have hlt := (List.getElem?_eq_some_iff.mp hdone).1
      grind

end Closed

/-- Each generator can be closed without an exception at a frame exactly if the frame is the last
line: at the frame of a chunk, and at the error frame, the `finally` yields into the close. -/
theorem generators_close_iff [Field K] [LinearOrder K]
    (depositTrace : F → String → Trace K → Except ε Unit × F) (clock : Nat → Int)
    (str : ε → String) (worker : Worker) (field : F) (capabilityMatch : K) (s : WorkerStream K)
    (k : Nat) :
    let chat := streamChatCompletion depositTrace clock str worker field capabilityMatch s
    let completion := streamCompletion depositTrace clock str worker field capabilityMatch s
    (chat.ClosesAt k ↔ chat.outputs[k]? = some .done) ∧
      (completion.ClosesAt k ↔ completion.outputs[k]? = some .done) :=
  ⟨closesAt_generator_iff .., closesAt_generator_iff ..⟩

/-! ## One chunk -/

/-- A field that takes every deposit. -/
def accept (_ : Unit) (_ : String) (_ : Trace ℚ) : Except String Unit × Unit := (.ok (), ())

/-- A worker that streams one token and stops. -/
def oneToken : WorkerStream ℚ :=
  ⟨[⟨some "Token 1\n", some 1, some true, some 1, some true, some 0, none⟩], .finished⟩

/-- A client that goes away after the first token of two lines gets the generator to raise. -/
theorem close_after_first_token_raises :
    ¬∀ k : Nat,
      let chat := streamChatCompletion accept (fun _ => 0) id ⟨"cpu-1", []⟩ () 1 oneToken
      let completion := streamCompletion accept (fun _ => 0) id ⟨"cpu-1", []⟩ () 1 oneToken
      (k < chat.outputs.length → chat.ClosesAt k) ∧
        (k < completion.outputs.length → completion.ClosesAt k) := by
  intro h
  obtain ⟨f, hf, hclean⟩ := (h 0).1 (by decide +kernel)
  obtain rfl : _ = f := Option.some.inj hf
  exact hclean

end StigmergicMesh.Streaming.Closing
