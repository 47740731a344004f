import StigmergicMesh.Streaming.Failures

/-!
# The frames of a generator

A generator over a memory field of which nothing is known but that a deposit ends somehow: it can
raise at any call. The generator is drained by its consumer; its worker has been sampled. It answers
with a frame for every chunk it has received, an error frame if something raised, and the last line,
and in either format it goes through the same chunks and deposits.
-/

namespace StigmergicMesh.Streaming

variable {K : Type*}

/-! ## Reading a line -/

/-- The first choice of a frame. -/
def Line.choice : Line → Option Json
  | .data document => (document.member "choices").bind (Json.item 0)
  | .done => none

/-- The text and the finish reason of a line, if it is a frame. -/
def Line.said (text : Json → Option Json) (line : Line) : Option (Json × Json) :=
  line.choice.bind fun choice =>
    (text choice).bind fun t => (choice.member "finish_reason").map fun reason => (t, reason)

/-- `choices[0].delta.content`. -/
def chatText (choice : Json) : Option Json := (choice.member "delta").bind (Json.member "content")

/-- `choices[0].text`. -/
def completionText (choice : Json) : Option Json := choice.member "text"

namespace AnyField

/-! ## The generators -/

/-- A call of `deposit_trace`, with how it ended. -/
structure DepositCall (K ε : Type*) where
  nodeId : String
  trace : Trace K
  result : Except ε Unit

/-- The field, the deposits called for, and the locals. -/
structure Work (K F ε : Type*) where
  field : F
  calls : List (DepositCall K ε)
  chunkCount : Nat
  ttftDeposited : Bool

variable {F ε : Type*} [Field K] [LinearOrder K]
  (depositTrace : F → String → Trace K → Except ε Unit × F)

namespace Work

omit [Field K] [LinearOrder K] in
/-- `await memory_field.deposit_trace(...)`. -/
def deposit (w : Work K F ε) (nodeId : String) (t : Trace K) : Except ε Unit × Work K F ε :=
  let deposited := depositTrace w.field nodeId t
  (deposited.1,
    { w with field := deposited.2, calls := w.calls ++ [⟨nodeId, t, deposited.1⟩] })

/-- The deposit of the first token. -/
def depositTtft (w : Work K F ε) (worker : Worker) (capabilityMatch : K) (c : Chunk K) :
    Except ε Unit × Work K F ε :=
  if c.isFirst && !w.ttftDeposited then
    match w.deposit depositTrace worker.nodeId
      ⟨c.elapsed, c.tokens, c.success.getD true, c.activeLoad.getD 0, capabilityMatch⟩ with
    | (.error e, w) => (.error e, w)
    | (.ok (), w) => (.ok (), { w with ttftDeposited := true })
  else (.ok (), w)

/-- The deposit of a batch of tokens. -/
def depositVelocity (w : Work K F ε) (worker : Worker) (capabilityMatch : K) (c : Chunk K) :
    Except ε Unit × Work K F ε :=
  if 0 < c.elapsed ∧ 0 < c.tokens then
    w.deposit depositTrace worker.nodeId
      ⟨c.elapsed, c.tokens, true, c.activeLoad.getD 0, capabilityMatch⟩
  else (.ok (), w)

/-- The body of the `async for` after its frame. -/
def onChunk (w : Work K F ε) (worker : Worker) (capabilityMatch : K) (c : Chunk K) :
    Except ε Unit × Work K F ε :=
  match w.depositTtft depositTrace worker capabilityMatch c with
  | (.error e, w) => (.error e, w)
  | (.ok (), w) =>
    match w.depositVelocity depositTrace worker capabilityMatch c with
    | (.error e, w) => (.error e, w)
    | (.ok (), w) => (.ok (), { w with chunkCount := w.chunkCount + 1 })

end Work

/-- What the loop has yielded, how it ended, and the chunks that it has not pulled. -/
structure Drained (K F ε δ : Type*) where
  lines : List Line
  result : Except δ Unit
  rest : List (Chunk K)
  work : Work K F ε

/-- The loop; `clock` shows the time at each frame. -/
def drain (fmt : Format) (clock : Nat → Int) (worker : Worker) (capabilityMatch : K) :
    List (Chunk K) → Work K F ε → Drained K F ε ε
  | [], w => ⟨[], .ok (), [], w⟩
  | c :: chunks, w =>
    let line := Line.data (fmt.frame (clock w.chunkCount) worker w.chunkCount c)
    match w.onChunk depositTrace worker capabilityMatch c with
    | (.error e, w) => ⟨[line], .error e, chunks, w⟩
    | (.ok (), w) =>
      let later := drain fmt clock worker capabilityMatch chunks w
      { later with lines := line :: later.lines }

/-- What a drained generator has yielded, the chunks it has not pulled, and its work. -/
structure Emission (K F ε : Type*) where
  lines : List Line
  rest : List (Chunk K)
  work : Work K F ε

/-- The `try` statement around the loop. `str` renders the exceptions. -/
def Drained.handled {δ : Type*} (str : δ → String) (ending : Ending) (drained : Drained K F ε δ) :
    Emission K F ε :=
  match drained.result with
  | .error e =>
    ⟨drained.lines ++ [.data (errorFrame (str e))] ++ [.done], drained.rest, drained.work⟩
  | .ok () =>
    match ending with
    | .raised message =>
      ⟨drained.lines ++ [.data (errorFrame message)] ++ [.done], drained.rest, drained.work⟩
    | .finished => ⟨drained.lines ++ [.done], drained.rest, drained.work⟩

/-- A generator of either format. -/
def stream (fmt : Format) (clock : Nat → Int) (str : ε → String) (worker : Worker) (field : F)
    (capabilityMatch : K) (s : WorkerStream K) : Emission K F ε :=
  (drain depositTrace fmt clock worker capabilityMatch s.chunks ⟨field, [], 0, false⟩).handled str
    s.ending

/-- `stream_completion` past its `sample_worker`. -/
def streamCompletion (clock : Nat → Int) (str : ε → String) (worker : Worker) (field : F)
    (capabilityMatch : K) (s : WorkerStream K) : Emission K F ε :=
  stream depositTrace completionFormat clock str worker field capabilityMatch s

/-! ## What a generator yields -/

/-- The frames of chunks, with the ids from `first` on. -/
def framesOf (fmt : Format) (clock : Nat → Int) (worker : Worker) (first : Nat)
    (chunks : List (Chunk K)) : List Line :=
  (chunks.zipIdx first).map fun p => .data (fmt.frame (clock p.2) worker p.2 p.1)

/-- Every deposit called for went through. -/
def AllPassed (calls : List (DepositCall K ε)) : Prop := ∀ call ∈ calls, call.result = .ok ()

/-- A deposit raised, or the worker did. -/
def Raised (s : WorkerStream K) (calls : List (DepositCall K ε)) : Prop :=
  ¬AllPassed calls ∨ ∃ message, s.ending = .raised message

/-- The chunks received are those up to the first deposit that raised, each has its frame with its
number for an id, an error frame follows if something raised, and then the last line. -/
structure Framed (fmt : Format) (clock : Nat → Int) (worker : Worker) (s : WorkerStream K)
    (received : List (Chunk K)) (error : Option String) (e : Emission K F ε) : Prop where
  chunks : s.chunks = received ++ e.rest
  pulled : AllPassed e.work.calls → e.rest = []
  lines : e.lines = framesOf fmt clock worker 0 received ++
    (error.map fun message => Line.data (errorFrame message)).toList ++ [.done]
  error_iff : error.isSome ↔ Raised s e.work.calls

/-! ## One chunk -/

omit [Field K] [LinearOrder K] in
theorem allPassed_append {calls : List (DepositCall K ε)} {call : DepositCall K ε} :
    AllPassed (calls ++ [call]) ↔ AllPassed calls ∧ call.result = .ok () := by
  simp [AllPassed, or_imp, forall_and]

namespace Work

/-- The deposits called for so far went through unless the step has raised. -/
def Sound (r : Except ε Unit × Work K F ε) : Prop := AllPassed r.2.calls ↔ r.1 = .ok ()

omit [Field K] [LinearOrder K] in
theorem deposit_sound {w : Work K F ε} (hw : AllPassed w.calls) (nodeId : String) (t : Trace K) :
    Sound (w.deposit depositTrace nodeId t) := by
  simp [Sound, deposit, allPassed_append, hw]

omit [Field K] [LinearOrder K] in
theorem chunkCount_deposit (w : Work K F ε) (nodeId : String) (t : Trace K) :
    (w.deposit depositTrace nodeId t).2.chunkCount = w.chunkCount := rfl

omit [LinearOrder K] in
theorem depositTtft_sound {w : Work K F ε} (hw : AllPassed w.calls) (worker : Worker)
    (capabilityMatch : K) (c : Chunk K) :
    Sound (w.depositTtft depositTrace worker capabilityMatch c) ∧
      (w.depositTtft depositTrace worker capabilityMatch c).2.chunkCount = w.chunkCount := by
  unfold depositTtft
  split
  · set t : Trace K :=
      ⟨c.elapsed, c.tokens, c.success.getD true, c.activeLoad.getD 0, capabilityMatch⟩
    have hsound := deposit_sound depositTrace hw worker.nodeId t
    have hcount := chunkCount_deposit depositTrace w worker.nodeId t
    split <;> rename_i h <;> rw [h] at hsound hcount <;> exact ⟨hsound, hcount⟩
  · exact ⟨by simpa [Sound] using hw, rfl⟩

theorem depositVelocity_sound {w : Work K F ε} (hw : AllPassed w.calls) (worker : Worker)
    (capabilityMatch : K) (c : Chunk K) :
    Sound (w.depositVelocity depositTrace worker capabilityMatch c) ∧
      (w.depositVelocity depositTrace worker capabilityMatch c).2.chunkCount = w.chunkCount := by
  unfold depositVelocity
  split
  · exact ⟨deposit_sound depositTrace hw _ _, rfl⟩
  · exact ⟨by simpa [Sound] using hw, rfl⟩

/-- A chunk that raises has called for a deposit that raised; one that does not is counted. -/
theorem onChunk_sound {w : Work K F ε} (hw : AllPassed w.calls) (worker : Worker)
    (capabilityMatch : K) (c : Chunk K) :
    Sound (w.onChunk depositTrace worker capabilityMatch c) ∧
      ∀ v, w.onChunk depositTrace worker capabilityMatch c = (.ok (), v) →
        v.chunkCount = w.chunkCount + 1 := by
  obtain ⟨httft, hcount⟩ := depositTtft_sound depositTrace hw worker
    capabilityMatch c
  unfold onChunk
  split
  · rename_i e v h
    rw [h] at httft
    exact ⟨httft, nofun⟩
  · rename_i v h
    rw [h] at httft hcount
    obtain ⟨hvelocity, hcount'⟩ := depositVelocity_sound depositTrace
      (httft.mpr rfl) worker capabilityMatch c
    split
    · rename_i e u h'
      rw [h'] at hvelocity
      exact ⟨hvelocity, nofun⟩
    · rename_i u h'
      rw [h'] at hvelocity hcount'
      refine ⟨hvelocity, ?_⟩
      rintro _ ⟨⟩
      exact congrArg (· + 1) (hcount'.trans hcount)

end Work

/-! ## The loop -/

/-- What the loop leaves of its chunks, and what it has yielded for the others. -/
theorem drain_spec {w : Work K F ε} (hw : AllPassed w.calls) (fmt : Format) (clock : Nat → Int)
    (worker : Worker) (capabilityMatch : K) (chunks : List (Chunk K)) :
    let drained := drain depositTrace fmt clock worker capabilityMatch chunks w
    (∃ received, chunks = received ++ drained.rest ∧
      drained.lines = framesOf fmt clock worker w.chunkCount received) ∧
    (AllPassed drained.work.calls ↔ drained.result = .ok ()) ∧
    (drained.result = .ok () → drained.rest = []) := by
  induction chunks generalizing w with
  | nil => exact ⟨⟨[], rfl, rfl⟩, by simpa [drain] using hw, fun _ => rfl⟩
  | cons c chunks ih =>
    obtain ⟨hsound, hcount⟩ := Work.onChunk_sound depositTrace hw worker
      capabilityMatch c
    simp only [drain]
    split
    · rename_i e v h
      rw [h] at hsound
      exact ⟨⟨[c], rfl, rfl⟩, hsound, nofun⟩
    · rename_i v h
      rw [h] at hsound
      obtain ⟨⟨received, hchunks, hlines⟩, hrest⟩ := ih (hsound.mpr rfl)
      refine ⟨⟨c :: received, congrArg (c :: ·) hchunks, ?_⟩, hrest⟩
      rw [hlines, hcount v h]
      rfl

/-- The format and the clock decide only what is yielded. -/
theorem drain_agree (fmt fmt' : Format) (clock clock' : Nat → Int) (worker : Worker)
    (capabilityMatch : K) (chunks : List (Chunk K)) (w : Work K F ε) :
    let drained := drain depositTrace fmt clock worker capabilityMatch chunks w
    let drained' := drain depositTrace fmt' clock' worker capabilityMatch chunks w
    drained.result = drained'.result ∧ drained.rest = drained'.rest ∧
      drained.work = drained'.work := by
  induction chunks generalizing w with
  | nil => exact ⟨rfl, rfl, rfl⟩
  | cons c chunks ih =>
    simp only [drain]
    split
    · exact ⟨rfl, rfl, rfl⟩
    · rename_i v h
      exact ih v

/-! ## The generators agree -/

/-- The message of the error frame, if there is one. -/
def errorOf (str : ε → String) (ending : Ending) : Except ε Unit → Option String
  | .error e => some (str e)
  | .ok () =>
    match ending with
    | .raised message => some message
    | .finished => none

theorem isSome_errorOf (str : ε → String) (ending : Ending) (result : Except ε Unit) :
    (errorOf str ending result).isSome ↔
      result ≠ .ok () ∨ ∃ message, ending = .raised message := by
  rcases result with e | u
  · simp [errorOf]
  · cases ending <;> simp [errorOf]

/-- A drained generator is its loop, one error frame if there is a message, and the last line. -/
theorem stream_eq (fmt : Format) (clock : Nat → Int) (str : ε → String) (worker : Worker)
    (field : F) (capabilityMatch : K) (s : WorkerStream K) :
    let drained := drain depositTrace fmt clock worker capabilityMatch s.chunks
      ⟨field, [], 0, false⟩
    stream depositTrace fmt clock str worker field capabilityMatch s =
      ⟨drained.lines ++ ((errorOf str s.ending drained.result).map fun message =>
        Line.data (errorFrame message)).toList ++ [.done], drained.rest, drained.work⟩ := by
  simp only [stream, Drained.handled]
  split
  · rename_i e h
    simp [errorOf, h]
  · rename_i h
    cases s.ending <;> simp [errorOf, h]

/-- A generator of either format. -/
theorem stream_framed (fmt : Format) (clock : Nat → Int) (str : ε → String) (worker : Worker)
    (field : F) (capabilityMatch : K) (s : WorkerStream K) :
    ∃ received, Framed fmt clock worker s received
      (errorOf str s.ending
        (drain depositTrace fmt clock worker capabilityMatch s.chunks ⟨field, [], 0, false⟩).result)
      (stream depositTrace fmt clock str worker field capabilityMatch s) := by
  have hnone : AllPassed (⟨field, [], 0, false⟩ : Work K F ε).calls := nofun
  obtain ⟨⟨received, hchunks, hlines⟩, hpassed, hrest⟩ := drain_spec depositTrace hnone fmt clock
    worker capabilityMatch s.chunks
  rw [stream_eq]
  refine ⟨received, hchunks, fun h => hrest (hpassed.mp h), by rw [hlines], ?_⟩
  rw [isSome_errorOf, Raised, hpassed]

omit [Field K] [LinearOrder K] in
/-- What the two formats say of the same chunks is the same. -/
theorem said_framesOf (clock clock' : Nat → Int) (worker : Worker) (first : Nat)
    (chunks : List (Chunk K)) :
    (framesOf chatFormat clock worker first chunks).map (Line.said chatText) =
      (framesOf completionFormat clock' worker first chunks).map (Line.said completionText) := by
  simp only [framesOf, List.map_map]
  rfl

/-- Two emissions, in either format, frame the same received chunks, say the same of them, and call
for the same deposits with the same results. -/
structure Agree (clock clock' : Nat → Int) (worker : Worker) (s : WorkerStream K)
    (chat completion : Emission K F ε) : Prop where
  framed : ∃ received error, Framed chatFormat clock worker s received error chat ∧
    Framed completionFormat clock' worker s received error completion
  said : chat.lines.map (Line.said chatText) = completion.lines.map (Line.said completionText)
  work : chat.work = completion.work

/-- The generators of the two formats agree. -/
theorem streams_agree (clock clock' : Nat → Int) (str : ε → String) (worker : Worker) (field : F)
    (capabilityMatch : K) (s : WorkerStream K) :
    Agree clock clock' worker s
      (stream depositTrace chatFormat clock str worker field capabilityMatch s)
      (stream depositTrace completionFormat clock' str worker field capabilityMatch s) := by
  set chat := stream depositTrace chatFormat clock str worker field capabilityMatch s with hchat_def
  set completion := stream depositTrace completionFormat clock' str worker field capabilityMatch s
    with hcompletion_def
  let loop (fmt : Format) (clock : Nat → Int) : Drained K F ε ε :=
    drain depositTrace fmt clock worker capabilityMatch s.chunks ⟨field, [], 0, false⟩
  obtain ⟨hresult, hrest, hwork⟩ : (loop chatFormat clock).result =
      (loop completionFormat clock').result ∧ (loop chatFormat clock).rest =
      (loop completionFormat clock').rest ∧ (loop chatFormat clock).work =
      (loop completionFormat clock').work := drain_agree ..
  have hsame : chat.rest = completion.rest ∧ chat.work = completion.work := by
    simp only [hchat_def, hcompletion_def, stream_eq]
    exact ⟨hrest, hwork⟩
  obtain ⟨received, hchat⟩ : ∃ received, Framed chatFormat clock worker s received
      (errorOf str s.ending (loop chatFormat clock).result) chat := stream_framed ..
  obtain ⟨received', hcompletion⟩ : ∃ received, Framed completionFormat clock' worker s received
      (errorOf str s.ending (loop completionFormat clock').result) completion := stream_framed ..
  obtain rfl : received' = received := by
    have happend : received' ++ completion.rest = received ++ completion.rest := by
      rw [← hcompletion.chunks, hchat.chunks, hsame.1]
    exact List.append_cancel_right happend
  rw [← hresult] at hcompletion
  refine ⟨⟨received', _, hchat, hcompletion⟩, ?_, hsame.2⟩
  rw [hchat.lines, hcompletion.lines]
  simp only [List.map_append, said_framesOf clock clock' worker 0 received']
  cases errorOf str s.ending (loop chatFormat clock).result <;> rfl

/-! ## The in-memory field -/

/-- The deposits that went through. -/
def passed (calls : List (DepositCall K ε)) : List (String × Trace K) :=
  calls.filterMap fun call =>
    match call.result with
    | .ok () => some (call.nodeId, call.trace)
    | .error _ => none

/-- The progress of a generator over the in-memory field is this work. -/
structure Shows (p : Progress K) (w : Work K (InMemoryField K) FieldError) : Prop where
  field : p.field = w.field
  deposits : p.deposits = passed w.calls
  chunkCount : p.chunkCount = w.chunkCount
  ttftDeposited : p.ttftDeposited = w.ttftDeposited

/-- Two steps end alike and yield nothing. -/
structure StepShows (p : Progress K) (a : Except FieldError Unit × Progress K)
    (b : Except FieldError Unit × Work K (InMemoryField K) FieldError) : Prop where
  result : a.1 = b.1
  shown : Shows a.2 b.2
  lines : a.2.lines = p.lines

omit [Field K] [LinearOrder K] in
/-- Both steps raise the same, or neither raises. -/
theorem StepShows.cases {p : Progress K} {a : Except FieldError Unit × Progress K}
    {b : Except FieldError Unit × Work K (InMemoryField K) FieldError} (h : StepShows p a b) :
    ∃ p' w', Shows p' w' ∧ p'.lines = p.lines ∧
      ((∃ e, a = (.error e, p') ∧ b = (.error e, w')) ∨ (a = (.ok (), p') ∧ b = (.ok (), w'))) := by
  rcases a with ⟨result, p'⟩
  rcases b with ⟨result', w'⟩
  obtain ⟨hresult, hshown, hlines⟩ := h
  obtain rfl : result = result' := hresult
  refine ⟨p', w', hshown, hlines, ?_⟩
  rcases result with e | u
  · exact Or.inl ⟨e, rfl, rfl⟩
  · exact Or.inr ⟨rfl, rfl⟩

section InMemory

variable {p : Progress K} {w : Work K (InMemoryField K) FieldError} (h : Shows p w)

include h

theorem shows_deposit (n : String) (t : Trace K) :
    StepShows p (p.deposit n t) (w.deposit InMemoryField.depositTrace n t) := by
  obtain ⟨hfield, hdeposits, hcount, httft⟩ := h
  unfold Progress.deposit Work.deposit
  rw [← hfield]
  split <;> rename_i field hd <;>
    exact ⟨by simp [hd], ⟨by simp [hd], by simp [passed, hd, hdeposits], hcount, httft⟩, rfl⟩

theorem shows_depositTtft (worker : Worker) (capabilityMatch : K) (c : Chunk K) :
    StepShows p (p.depositTtft worker capabilityMatch c)
      (w.depositTtft InMemoryField.depositTrace worker capabilityMatch c) := by
  unfold Progress.depositTtft Work.depositTtft
  rw [← h.ttftDeposited]
  split
  · obtain ⟨p', w', hshown, hlines, ⟨e, ha, hb⟩ | ⟨ha, hb⟩⟩ := (shows_deposit h worker.nodeId
      ⟨c.elapsed, c.tokens, c.success.getD true, c.activeLoad.getD 0, capabilityMatch⟩).cases
    · simp only [ha, hb]
      exact ⟨rfl, hshown, hlines⟩
    · simp only [ha, hb]
      exact ⟨rfl, ⟨hshown.field, hshown.deposits, hshown.chunkCount, rfl⟩, hlines⟩
  · exact ⟨rfl, h, rfl⟩

theorem shows_depositVelocity (worker : Worker) (capabilityMatch : K) (c : Chunk K) :
    StepShows p (p.depositVelocity worker capabilityMatch c)
      (w.depositVelocity InMemoryField.depositTrace worker capabilityMatch c) := by
  unfold Progress.depositVelocity Work.depositVelocity
  split
  · exact shows_deposit h _ _
  · exact ⟨rfl, h, rfl⟩

theorem shows_onChunk (fmt : Format) (created : Int) (worker : Worker) (capabilityMatch : K)
    (c : Chunk K) :
    StepShows (p.yield (.data (fmt.frame created worker p.chunkCount c)))
      (p.onChunk fmt created worker capabilityMatch c)
      (w.onChunk InMemoryField.depositTrace worker capabilityMatch c) := by
  unfold Progress.onChunk Work.onChunk
  have hyield : Shows (p.yield (.data (fmt.frame created worker p.chunkCount c))) w :=
    ⟨h.field, h.deposits, h.chunkCount, h.ttftDeposited⟩
  obtain ⟨p', w', hshown, hlines, ⟨e, ha, hb⟩ | ⟨ha, hb⟩⟩ :=
    (shows_depositTtft hyield worker capabilityMatch c).cases
  · simp only [ha, hb]
    exact ⟨rfl, hshown, hlines⟩
  · obtain ⟨p'', w'', hshown', hlines', ⟨e, ha', hb'⟩ | ⟨ha', hb'⟩⟩ :=
      (shows_depositVelocity hshown worker capabilityMatch c).cases
    · simp only [ha, hb, ha', hb']
      exact ⟨rfl, hshown', hlines'.trans hlines⟩
    · simp only [ha, hb, ha', hb', hshown'.chunkCount]
      exact ⟨rfl, ⟨hshown'.field, hshown'.deposits, rfl, hshown'.ttftDeposited⟩,
        hlines'.trans hlines⟩

/-- The loop over the in-memory field is the one over any field. -/
theorem shows_drain (fmt : Format) (clock : Nat → Int) (worker : Worker) (capabilityMatch : K)
    (chunks : List (Chunk K)) :
    let progress := Progress.drain fmt clock worker capabilityMatch chunks p
    let drained := drain InMemoryField.depositTrace fmt clock worker capabilityMatch chunks w
    progress.1 = drained.result ∧ Shows progress.2 drained.work ∧
      progress.2.lines = p.lines ++ drained.lines := by
  induction chunks generalizing p w with
  | nil => exact ⟨rfl, h, (List.append_nil _).symm⟩
  | cons c chunks ih =>
    obtain ⟨p', w', hshown, hlines, ⟨e, ha, hb⟩ | ⟨ha, hb⟩⟩ :=
      (shows_onChunk h fmt (clock p.chunkCount) worker capabilityMatch c).cases
    · simp only [Progress.drain, drain, ha, hb, ← h.chunkCount]
      exact ⟨trivial, hshown, hlines⟩
    · obtain ⟨hresult, hshown', hlines'⟩ := ih hshown
      simp only [Progress.drain, drain, ha, hb, ← h.chunkCount]
      refine ⟨hresult, hshown', ?_⟩
      rw [hlines', hlines]
      simp [Progress.yield]

end InMemory

/-- The generators over the in-memory field are those over any field. -/
theorem stream_inMemory (fmt : Format) (clock : Nat → Int) (str : FieldError → String)
    (worker : Worker) (field : InMemoryField K) (capabilityMatch : K) (s : WorkerStream K) :
    let progress := Streaming.stream fmt clock str worker field capabilityMatch s
    let emission := stream InMemoryField.depositTrace fmt clock str worker field capabilityMatch s
    Shows progress emission.work ∧ progress.lines = emission.lines := by
  have hstart : Shows (.start field) (⟨field, [], 0, false⟩ : Work K _ FieldError) :=
    ⟨rfl, rfl, rfl, rfl⟩
  obtain ⟨hresult, hshown, hlines⟩ := shows_drain hstart fmt clock worker capabilityMatch s.chunks
  simp only [Streaming.stream, stream, Drained.handled]
  generalize drain InMemoryField.depositTrace fmt clock worker capabilityMatch s.chunks
    ⟨field, [], 0, false⟩ = drained at hresult hshown hlines ⊢
  have hyield : ∀ (q : Progress K) (lines : List Line), Shows q drained.work →
      Shows { q with lines := lines } drained.work := fun q lines hq =>
    ⟨hq.field, hq.deposits, hq.chunkCount, hq.ttftDeposited⟩
  rcases hloop : Progress.drain fmt clock worker capabilityMatch s.chunks (.start field) with
    ⟨e | u, q⟩ <;> rw [hloop] at hresult hshown hlines <;>
    have hlines : q.lines = drained.lines := hlines
  · simp only [← hresult]
    exact ⟨hyield q _ hshown, by simp [Progress.yield, hlines]⟩
  · simp only [← hresult]
    cases s.ending <;> exact ⟨hyield q _ hshown, by simp [Progress.yield, hlines]⟩

end AnyField

end StigmergicMesh.Streaming
