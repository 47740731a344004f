import StigmergicMesh.Streaming.Frames

/-!
# The velocity of a batch

Before it deposits a batch of tokens, `stream_chat_completion` divides the number of tokens by the
latency. The division converts the number to a float and raises for one that no float holds; the
quotient is dropped. `stream_completion` has no such statement, so the generators agree as long as
the chat generator reaches no such batch.
-/

namespace StigmergicMesh.Streaming.AnyField

variable {K F ε : Type*}

/-! ## The chat generator -/

/-- The exceptions in the loop of the chat generator: one of the field, or
`OverflowError("int too large to convert to float")`. -/
inductive LoopError (ε : Type*) where
  | deposit (e : ε)
  | overflow

/-- `str(exc)`. -/
def LoopError.str (str : ε → String) : LoopError ε → String
  | .deposit e => str e
  | .overflow => "int too large to convert to float"

/-- An integer that rounds to a float below `2 ^ 1024`. -/
def FitsFloat (n : Int) : Prop := |n| < 2 ^ 1024 - 2 ^ 970

instance (n : Int) : Decidable (FitsFloat n) := inferInstanceAs (Decidable (_ < _))

variable [Field K] [LinearOrder K]
  (depositTrace : F → String → Trace K → Except ε Unit × F)

namespace Work

/-- The velocity and the deposit of a batch of tokens. -/
def depositBatch (w : Work K F ε) (worker : Worker) (capabilityMatch : K) (c : Chunk K) :
    Except (LoopError ε) Unit × Work K F ε :=
  if 0 < c.elapsed ∧ 0 < c.tokens then
    -- `velocity = tokens / elapsed`
    if FitsFloat c.tokens then
      match w.deposit depositTrace worker.nodeId
        ⟨c.elapsed, c.tokens, true, c.activeLoad.getD 0, capabilityMatch⟩ with
      | (.error e, w) => (.error (.deposit e), w)
      | (.ok (), w) => (.ok (), w)
    else (.error .overflow, w)
  else (.ok (), w)

/-- The body of the chat generator's `async for` after its frame. -/
def onChatChunk (w : Work K F ε) (worker : Worker) (capabilityMatch : K) (c : Chunk K) :
    Except (LoopError ε) Unit × Work K F ε :=
  match w.depositTtft depositTrace worker capabilityMatch c with
  | (.error e, w) => (.error (.deposit e), w)
  | (.ok (), w) =>
    match w.depositBatch depositTrace worker capabilityMatch c with
    | (.error e, w) => (.error e, w)
    | (.ok (), w) => (.ok (), { w with chunkCount := w.chunkCount + 1 })

end Work

/-- The chat generator's loop. -/
def drainChat (clock : Nat → Int) (worker : Worker) (capabilityMatch : K) :
    List (Chunk K) → Work K F ε → Drained K F ε (LoopError ε)
  | [], w => ⟨[], .ok (), [], w⟩
  | c :: chunks, w =>
    let line := Line.data (chatFormat.frame (clock w.chunkCount) worker w.chunkCount c)
    match w.onChatChunk depositTrace worker capabilityMatch c with
    | (.error e, w) => ⟨[line], .error e, chunks, w⟩
    | (.ok (), w) =>
      let later := drainChat clock worker capabilityMatch chunks w
      { later with lines := line :: later.lines }

/-- `stream_chat_completion` past its `sample_worker`. -/
def streamChatCompletion (clock : Nat → Int) (str : ε → String) (worker : Worker) (field : F)
    (capabilityMatch : K) (s : WorkerStream K) : Emission K F ε :=
  (drainChat depositTrace clock worker capabilityMatch s.chunks ⟨field, [], 0, false⟩).handled
    (LoopError.str str) s.ending

/-! ## Deposits that go through -/

/-- The deposits of the traces all go through. -/
def Accepts (nodeId : String) : F → List (Trace K) → Prop
  | _, [] => True
  | field, t :: traces =>
    (depositTrace field nodeId t).1 = .ok () ∧ Accepts nodeId (depositTrace field nodeId t).2 traces

/-- The field after the deposits. -/
def fieldAfter (nodeId : String) (field : F) (traces : List (Trace K)) : F :=
  traces.foldl (fun field t => (depositTrace field nodeId t).2) field

omit [Field K] [LinearOrder K] in
theorem accepts_append (nodeId : String) (field : F) (ts us : List (Trace K)) :
    Accepts depositTrace nodeId field (ts ++ us) ↔ Accepts depositTrace nodeId field ts ∧
      Accepts depositTrace nodeId (fieldAfter depositTrace nodeId field ts) us := by
  induction ts generalizing field with
  | nil => simp [Accepts, fieldAfter]
  | cons t ts ih => simp [Accepts, fieldAfter, ih, and_assoc]

namespace Work

/-- The work after deposits that have gone through. -/
def after (w : Work K F ε) (nodeId : String) (traces : List (Trace K)) : Work K F ε :=
  { w with
    field := fieldAfter depositTrace nodeId w.field traces
    calls := w.calls ++ traces.map fun t => ⟨nodeId, t, .ok ()⟩ }

/-- A step that calls for the deposits of the traces, and goes on only if they go through. -/
def Deposits (w : Work K F ε) (nodeId : String) (traces : List (Trace K))
    (change : Work K F ε → Work K F ε) (r : Except ε Unit × Work K F ε) : Prop :=
  (Accepts depositTrace nodeId w.field traces ∧
    r = (.ok (), change (w.after depositTrace nodeId traces))) ∨
  (¬Accepts depositTrace nodeId w.field traces ∧
    ∃ e v, r = (.error e, v) ∧ w.calls.length ≤ v.calls.length)

omit [Field K] [LinearOrder K] in
theorem deposits_deposit (w : Work K F ε) (nodeId : String) (t : Trace K) :
    w.Deposits depositTrace nodeId [t] id (w.deposit depositTrace nodeId t) := by
  rcases h : (depositTrace w.field nodeId t).1 with e | u
  · exact Or.inr ⟨by simp [Accepts, h], e, _, by rw [deposit, h], by simp⟩
  · exact Or.inl ⟨by simp [Accepts, h], by simp [deposit, after, fieldAfter, h]⟩

/-- What the first token has deposited is marked. -/
def mark (c : Chunk K) (w : Work K F ε) : Work K F ε :=
  { w with ttftDeposited := w.ttftDeposited || c.isFirst }

/-- The chunk is counted. -/
def count (c : Chunk K) (w : Work K F ε) : Work K F ε :=
  { w.mark c with chunkCount := w.chunkCount + 1 }

omit [LinearOrder K] in
theorem deposits_depositTtft (w : Work K F ε) (worker : Worker) (capabilityMatch : K)
    (c : Chunk K) :
    w.Deposits depositTrace worker.nodeId (c.ttftTraces capabilityMatch w.ttftDeposited) (mark c)
      (w.depositTtft depositTrace worker capabilityMatch c) := by
  unfold depositTtft Chunk.ttftTraces
  split
  · rename_i hfirst
    obtain ⟨hfirst, -⟩ := Bool.and_eq_true_iff.mp hfirst
    rcases deposits_deposit depositTrace w worker.nodeId
      (c.trace capabilityMatch (c.success.getD true)) with ⟨hok, hr⟩ | ⟨hno, e, v, hr, hcalls⟩
    · refine Or.inl ⟨hok, ?_⟩
      rw [Chunk.trace] at hr
      simp [hr, mark, hfirst, Chunk.trace]
    · refine Or.inr ⟨hno, e, v, ?_, hcalls⟩
      rw [Chunk.trace] at hr
      simp [hr]
  · rename_i hfirst
    refine Or.inl ⟨trivial, ?_⟩
    have hflag : (w.ttftDeposited || c.isFirst) = w.ttftDeposited := by
      cases hw : w.ttftDeposited <;> cases hc : c.isFirst <;> simp [hw, hc] at hfirst ⊢
    simp [mark, after, fieldAfter, hflag]

theorem deposits_depositVelocity (w : Work K F ε) (worker : Worker) (capabilityMatch : K)
    (c : Chunk K) :
    w.Deposits depositTrace worker.nodeId (c.velocityTraces capabilityMatch) id
      (w.depositVelocity depositTrace worker capabilityMatch c) := by
  unfold depositVelocity Chunk.velocityTraces
  split
  · exact deposits_deposit depositTrace w worker.nodeId _
  · exact Or.inl ⟨trivial, by simp [after, fieldAfter]⟩

omit [Field K] [LinearOrder K] in
theorem after_after (w : Work K F ε) (nodeId : String) (ts us : List (Trace K)) :
    (w.after depositTrace nodeId ts).after depositTrace nodeId us =
      w.after depositTrace nodeId (ts ++ us) := by
  simp [after, fieldAfter]

theorem deposits_onChunk (w : Work K F ε) (worker : Worker) (capabilityMatch : K) (c : Chunk K) :
    w.Deposits depositTrace worker.nodeId
      (c.ttftTraces capabilityMatch w.ttftDeposited ++ c.velocityTraces capabilityMatch) (count c)
      (w.onChunk depositTrace worker capabilityMatch c) := by
  unfold Deposits onChunk
  rw [accepts_append]
  rcases deposits_depositTtft depositTrace w worker capabilityMatch c with
    ⟨hok, hr⟩ | ⟨hno, e, v, hr, hcalls⟩
  · set v := mark c (w.after depositTrace worker.nodeId
      (c.ttftTraces capabilityMatch w.ttftDeposited)) with hv
    rcases deposits_depositVelocity depositTrace v worker capabilityMatch c with
      ⟨hok', hr'⟩ | ⟨hno', e, u, hr', hcalls⟩
    · refine Or.inl ⟨⟨hok, hok'⟩, ?_⟩
      simp only [hr, hr', ← after_after]
      rfl
    · have hv : w.calls.length ≤ v.calls.length := by simp [hv, mark, after]
      exact Or.inr ⟨fun h => hno' h.2, e, u, by simp only [hr, hr'], hv.trans hcalls⟩
  · exact Or.inr ⟨fun h => hno h.1, e, v, by simp only [hr], hcalls⟩

end Work

/-! ## A batch that overflows -/

/-- No float holds the number of tokens of the batch. -/
def Overflows (c : Chunk K) : Prop := 0 < c.elapsed ∧ 0 < c.tokens ∧ ¬FitsFloat c.tokens

instance (c : Chunk K) : Decidable (Overflows c) :=
  inferInstanceAs (Decidable (_ ∧ _ ∧ _))

/-- The chat generator computes the velocity of such a batch: every deposit before it goes through.
-/
def ReachesOverflow (worker : Worker) (capabilityMatch : K) (ttftDeposited : Bool) (field : F)
    (chunks : List (Chunk K)) : Prop :=
  ∃ before c later, chunks = before ++ c :: later ∧ Overflows c ∧
    Accepts depositTrace worker.nodeId field (tracesOf capabilityMatch ttftDeposited before ++
      c.ttftTraces capabilityMatch (ttftDeposited || before.any Chunk.isFirst))

theorem reachesOverflow_cons (worker : Worker) (capabilityMatch : K) (ttftDeposited : Bool)
    (field : F) (c : Chunk K) (chunks : List (Chunk K)) :
    ReachesOverflow depositTrace worker capabilityMatch ttftDeposited field (c :: chunks) ↔
      (Overflows c ∧ Accepts depositTrace worker.nodeId field
        (c.ttftTraces capabilityMatch ttftDeposited)) ∨
      (Accepts depositTrace worker.nodeId field (c.ttftTraces capabilityMatch ttftDeposited ++
          c.velocityTraces capabilityMatch) ∧
        ReachesOverflow depositTrace worker capabilityMatch (ttftDeposited || c.isFirst)
          (fieldAfter depositTrace worker.nodeId field
            (c.ttftTraces capabilityMatch ttftDeposited ++ c.velocityTraces capabilityMatch))
          chunks) := by
  constructor
  · rintro ⟨before, d, later, hchunks, hover, haccepts⟩
    cases before with
    | nil =>
      obtain ⟨rfl, -⟩ := List.cons.inj hchunks
      exact Or.inl ⟨hover, by simpa [tracesOf] using haccepts⟩
    | cons b before =>
      obtain ⟨rfl, hrest⟩ := List.cons.inj hchunks
      rw [tracesOf, List.append_assoc, accepts_append, List.any_cons, ← Bool.or_assoc] at haccepts
      exact Or.inr ⟨haccepts.1, before, d, later, hrest, hover, haccepts.2⟩
  · rintro (⟨hover, haccepts⟩ | ⟨hfirst, before, d, later, hchunks, hover, haccepts⟩)
    · exact ⟨[], c, chunks, rfl, hover, by simpa [tracesOf] using haccepts⟩
    · refine ⟨c :: before, d, later, congrArg (c :: ·) hchunks, hover, ?_⟩
      rw [tracesOf, List.append_assoc, accepts_append, List.any_cons, ← Bool.or_assoc]
      exact ⟨hfirst, haccepts⟩

/-! ## One chunk -/

namespace Work

/-- A batch that some float holds is deposited as by the other generator. -/
theorem depositBatch_of_not (w : Work K F ε) (worker : Worker) (capabilityMatch : K) {c : Chunk K}
    (h : ¬Overflows c) :
    w.depositBatch depositTrace worker capabilityMatch c =
      ((w.depositVelocity depositTrace worker capabilityMatch c).1.mapError .deposit,
        (w.depositVelocity depositTrace worker capabilityMatch c).2) := by
  unfold depositBatch depositVelocity
  split
  · rename_i hbatch
    rw [if_pos (not_not.mp fun hfits => h ⟨hbatch.1, hbatch.2, hfits⟩)]
    split <;> rename_i hd <;> rw [hd] <;> rfl
  · rfl

theorem depositBatch_of_overflows (w : Work K F ε) (worker : Worker) (capabilityMatch : K)
    {c : Chunk K} (h : Overflows c) :
    w.depositBatch depositTrace worker capabilityMatch c = (.error .overflow, w) := by
  rw [depositBatch, if_pos ⟨h.1, h.2.1⟩, if_neg h.2.2]

/-- Unless the chat generator reaches a batch that overflows, a chunk does what it does in the other
generator. -/
theorem onChatChunk_of_not (w : Work K F ε) (worker : Worker) (capabilityMatch : K) {c : Chunk K}
    (h : ¬(Overflows c ∧ Accepts depositTrace worker.nodeId w.field
      (c.ttftTraces capabilityMatch w.ttftDeposited))) :
    w.onChatChunk depositTrace worker capabilityMatch c =
      ((w.onChunk depositTrace worker capabilityMatch c).1.mapError .deposit,
        (w.onChunk depositTrace worker capabilityMatch c).2) := by
  unfold onChatChunk onChunk
  rcases deposits_depositTtft depositTrace w worker capabilityMatch c with
    ⟨hok, hr⟩ | ⟨-, e, v, hr, -⟩
  · simp only [hr, depositBatch_of_not depositTrace _ worker capabilityMatch fun ho => h ⟨ho, hok⟩]
    rcases (depositVelocity depositTrace _ worker capabilityMatch c) with ⟨e | u, v⟩ <;> rfl
  · simp only [hr]
    rfl

/-- A batch that overflows ends the chat generator before a deposit that the other calls for. -/
theorem onChatChunk_of_overflows (w : Work K F ε) (worker : Worker) (capabilityMatch : K)
    {c : Chunk K} (h : Overflows c) (haccepts : Accepts depositTrace worker.nodeId w.field
      (c.ttftTraces capabilityMatch w.ttftDeposited)) :
    ∃ v, w.onChatChunk depositTrace worker capabilityMatch c = (.error .overflow, v) ∧
      v.calls.length < (w.onChunk depositTrace worker capabilityMatch c).2.calls.length := by
  rcases deposits_depositTtft depositTrace w worker capabilityMatch c with
    ⟨-, hr⟩ | ⟨hno, -⟩
  · set v := mark c (w.after depositTrace worker.nodeId
      (c.ttftTraces capabilityMatch w.ttftDeposited))
    refine ⟨v, by simp only [onChatChunk, hr, depositBatch_of_overflows _ _ _ _ h], ?_⟩
    have hcalls : ∀ nodeId t, v.calls.length < (v.deposit depositTrace nodeId t).2.calls.length :=
      fun nodeId t => by simp [deposit]
    simp only [onChunk, hr, depositVelocity, if_pos (And.intro h.1 h.2.1)]
    split <;> rename_i hd <;> have hlt := hcalls worker.nodeId
      ⟨c.elapsed, c.tokens, true, c.activeLoad.getD 0, capabilityMatch⟩ <;> rw [hd] at hlt <;>
      exact hlt
  · exact (hno haccepts).elim

end Work

/-! ## The loops -/

/-- The loop with its exception in another type. -/
def Drained.mapError {δ δ' : Type*} (f : δ → δ') (drained : Drained K F ε δ) : Drained K F ε δ' :=
  { drained with result := drained.result.mapError f }

omit [Field K] [LinearOrder K] in
theorem handled_mapError (str : ε → String) (ending : Ending) (drained : Drained K F ε ε) :
    (drained.mapError .deposit).handled (LoopError.str str) ending =
      drained.handled str ending := by
  rcases drained with ⟨lines, e | u, rest, work⟩
  · rfl
  · cases ending <;> rfl

omit [Field K] [LinearOrder K] in
theorem work_handled {δ : Type*} (str : δ → String) (ending : Ending) (drained : Drained K F ε δ) :
    (drained.handled str ending).work = drained.work := by
  rcases drained with ⟨lines, e | u, rest, work⟩
  · rfl
  · cases ending <;> rfl

/-- Deposits are not taken back. -/
theorem calls_drain (fmt : Format) (clock : Nat → Int) (worker : Worker) (capabilityMatch : K)
    (chunks : List (Chunk K)) (w : Work K F ε) :
    w.calls.length ≤
      (drain depositTrace fmt clock worker capabilityMatch chunks w).work.calls.length := by
  induction chunks generalizing w with
  | nil => exact le_rfl
  | cons c chunks ih =>
    rcases Work.deposits_onChunk depositTrace w worker capabilityMatch c with
      ⟨-, hr⟩ | ⟨-, e, v, hr, hcalls⟩
    · simp only [drain, hr]
      refine le_trans ?_ (ih _)
      simp [Work.count, Work.mark, Work.after]
    · simpa only [drain, hr] using hcalls

/-- Without a batch that overflows the chat generator's loop is that of a generator with its
frames. -/
theorem drainChat_of_not {worker : Worker} {capabilityMatch : K} (clock : Nat → Int)
    {chunks : List (Chunk K)} {w : Work K F ε}
    (h : ¬ReachesOverflow depositTrace worker capabilityMatch w.ttftDeposited w.field chunks) :
    drainChat depositTrace clock worker capabilityMatch chunks w =
      (drain depositTrace chatFormat clock worker capabilityMatch chunks w).mapError .deposit := by
  induction chunks generalizing w with
  | nil => rfl
  | cons c chunks ih =>
    rw [reachesOverflow_cons, not_or] at h
    rw [drainChat, drain, Work.onChatChunk_of_not depositTrace w worker capabilityMatch h.1]
    rcases Work.deposits_onChunk depositTrace w worker capabilityMatch c with
      ⟨hok, hr⟩ | ⟨-, e, v, hr, -⟩
    · have hlater := ih (w := Work.count c (w.after depositTrace worker.nodeId _))
        fun hreach => h.2 ⟨hok, hreach⟩
      simp only [hr, Except.mapError, hlater]
      rfl
    · simp only [hr]
      rfl

/-- A batch that overflows leaves the chat generator with fewer deposits. -/
theorem calls_drainChat_lt {worker : Worker} {capabilityMatch : K} (fmt : Format)
    (clock clock' : Nat → Int) {chunks : List (Chunk K)} {w : Work K F ε}
    (h : ReachesOverflow depositTrace worker capabilityMatch w.ttftDeposited w.field chunks) :
    (drainChat depositTrace clock worker capabilityMatch chunks w).work.calls.length <
      (drain depositTrace fmt clock' worker capabilityMatch chunks w).work.calls.length := by
  induction chunks generalizing w with
  | nil =>
    obtain ⟨before, c, later, hchunks, -⟩ := h
    simp at hchunks
  | cons c chunks ih =>
    by_cases hover : Overflows c ∧ Accepts depositTrace worker.nodeId w.field
      (c.ttftTraces capabilityMatch w.ttftDeposited)
    · obtain ⟨v, hv, hlt⟩ := Work.onChatChunk_of_overflows depositTrace w worker capabilityMatch
        hover.1 hover.2
      rcases hr : w.onChunk depositTrace worker capabilityMatch c with ⟨e | u, v'⟩ <;>
        rw [hr] at hlt <;> simp only [drainChat, drain, hv, hr]
      · exact hlt
      · exact hlt.trans_le (calls_drain ..)
    · obtain ⟨hok, hreach⟩ := ((reachesOverflow_cons ..).mp h).resolve_left hover
      rcases Work.deposits_onChunk depositTrace w worker capabilityMatch c with
        ⟨-, hr⟩ | ⟨hno, -⟩
      · have hlater := ih (w := Work.count c (w.after depositTrace worker.nodeId _)) hreach
        simpa only [drainChat, drain, hr, Except.mapError,
          Work.onChatChunk_of_not depositTrace w worker capabilityMatch hover] using hlater
      · exact (hno hok).elim

/-! ## The generators -/

/-- Without a batch that overflows the chat generator is a generator with its frames. -/
theorem streamChatCompletion_of_not (clock : Nat → Int) (str : ε → String) {worker : Worker}
    {field : F} {capabilityMatch : K} {s : WorkerStream K}
    (h : ¬ReachesOverflow depositTrace worker capabilityMatch false field s.chunks) :
    streamChatCompletion depositTrace clock str worker field capabilityMatch s =
      stream depositTrace chatFormat clock str worker field capabilityMatch s := by
  rw [streamChatCompletion, drainChat_of_not depositTrace clock h, handled_mapError, stream]

/-- With a batch that overflows the generators call for different deposits. -/
theorem not_agree_of_reachesOverflow (clock clock' : Nat → Int) (str : ε → String) {worker : Worker}
    {field : F} {capabilityMatch : K} {s : WorkerStream K}
    (h : ReachesOverflow depositTrace worker capabilityMatch false field s.chunks) :
    ¬Agree clock clock' worker s
      (streamChatCompletion depositTrace clock str worker field capabilityMatch s)
      (streamCompletion depositTrace clock' str worker field capabilityMatch s) := by
  intro hagree
  have hlt := calls_drainChat_lt depositTrace completionFormat clock clock'
    (w := ⟨field, [], 0, false⟩) h
  have hwork : (drainChat depositTrace clock worker capabilityMatch s.chunks
      ⟨field, [], 0, false⟩).work = (drain depositTrace completionFormat clock' worker
        capabilityMatch s.chunks ⟨field, [], 0, false⟩).work := by
    simpa only [streamChatCompletion, streamCompletion, stream, work_handled] using hagree.work
  rw [hwork] at hlt
  exact lt_irrefl _ hlt

/-- The two generators frame the same chunks, say the same of them, and call for the same deposits
with the same results, exactly unless the chat generator computes the velocity of a batch whose
number of tokens no float holds. -/
theorem generators_framed_and_agree_iff (clock clock' : Nat → Int) (str : ε → String)
    (worker : Worker) (field : F) (capabilityMatch : K) (s : WorkerStream K) :
    Agree clock clock' worker s
        (streamChatCompletion depositTrace clock str worker field capabilityMatch s)
        (streamCompletion depositTrace clock' str worker field capabilityMatch s) ↔
      ¬ReachesOverflow depositTrace worker capabilityMatch false field s.chunks := by
  constructor
  · intro hagree hreach
    exact not_agree_of_reachesOverflow depositTrace clock clock' str hreach hagree
  · intro hreach
    rw [streamChatCompletion_of_not depositTrace clock str hreach]
    exact streams_agree depositTrace clock clock' str worker field capabilityMatch s

/-- One batch of tokens, more than a float holds. -/
def hugeBatch : WorkerStream ℚ :=
  ⟨[⟨some "Hi", some 0.5, none, some (10 ^ 309), none, none, none⟩], .finished⟩

/-- The chat generator answers with an error and deposits nothing, the other one deposits the batch.
-/
theorem hugeBatch_disagrees :
    let deposited (field : Unit) (_ : String) (_ : Trace ℚ) : Except String Unit × Unit :=
      (.ok (), field)
    ¬Agree (fun _ => 0) (fun _ => 0) ⟨"a", []⟩ hugeBatch
      (streamChatCompletion deposited (fun _ => 0) id ⟨"a", []⟩ () 1 hugeBatch)
      (streamCompletion deposited (fun _ => 0) id ⟨"a", []⟩ () 1 hugeBatch) := by
  refine not_agree_of_reachesOverflow _ _ _ _ ⟨[], _, [], rfl, ⟨?_, ?_, ?_⟩, trivial⟩
  · norm_num [Chunk.elapsed]
  · norm_num [Chunk.tokens]
  · decide +kernel

/-! ## Batches that floats hold -/

/-- Over the in-memory field, and with numbers of tokens that floats hold, the chat generator is the
one whose deposits are exact. -/
theorem streamChatCompletion_inMemory (clock : Nat → Int) (str : FieldError → String)
    (worker : Worker) (field : InMemoryField K) (capabilityMatch : K) {s : WorkerStream K}
    (h : ∀ c ∈ s.chunks, FitsFloat c.tokens) :
    let progress := Streaming.stream chatFormat clock str worker field capabilityMatch s
    let emission := streamChatCompletion InMemoryField.depositTrace clock str worker field
      capabilityMatch s
    Shows progress emission.work ∧ progress.lines = emission.lines := by
  have hreach : ¬ReachesOverflow InMemoryField.depositTrace worker capabilityMatch false field
      s.chunks := by
    rintro ⟨before, c, later, hchunks, hover, -⟩
    exact hover.2.2 (h c (by simp [hchunks]))
  intro progress emission
  have hsame := stream_inMemory chatFormat clock str worker field capabilityMatch s
  rwa [← streamChatCompletion_of_not InMemoryField.depositTrace clock str hreach] at hsame

end StigmergicMesh.Streaming.AnyField
