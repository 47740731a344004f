import StigmergicMesh.Streaming.Velocity

/-!
# Credit for failed chunks

When every chunk of a stream reports a failure, one of its deposits at most is a failure, that of
the first token; each batch of tokens is deposited as a success. A success halves the distance of
V to 1 and a failure halves V, so whether the stream raises V depends on V and on how many batches
come before the failure and after it.
-/

namespace StigmergicMesh

variable {K : Type*} [Field K] [LinearOrder K]

/-- The row of a node after deposits on it. -/
theorem InMemoryField.Consistent.rowOf_run_deposits {f : InMemoryField K} (hf : f.Consistent)
    {n : String} {r : Row K} (hr : f.rowOf n = some r) (traces : List (Trace K)) :
    (f.run (traces.map (.depositTrace n))).rowOf n =
      some (traces.foldl (fun r t => r.deposit f.saturationScale t) r) := by
  induction traces generalizing f r with
  | nil => exact hr
  | cons t traces ih =>
    obtain ⟨hc, -, -, hrow⟩ := hf.depositTrace n t
    have hstep : (f.depositTrace n t).2.rowOf n = some (r.deposit f.saturationScale t) := by
      rw [hrow, if_pos rfl, hr, Option.map_some]
    have hscale := (f.depositTrace_rowsOnly n t).settings.1
    simpa [InMemoryField.run, InMemoryField.exec, hscale] using ih hc hstep

namespace Streaming

open Router

/-! ## Outcomes and V -/

/-- V after deposits with the given outcomes. -/
def credit (V : K) (outcomes : List Bool) : K :=
  outcomes.foldl (fun v success => Row.ewma (Row.successVal success) v) V

/-- Of the other columns V takes nothing. -/
theorem foldl_deposit_V (scale : K) (traces : List (Trace K)) (r : Row K) :
    (traces.foldl (fun r t => r.deposit scale t) r).V = credit r.V (traces.map (·.success)) := by
  induction traces generalizing r with
  | nil => rfl
  | cons t traces ih => exact ih _

section Halving

variable [IsStrictOrderedRing K]

omit [LinearOrder K] [IsStrictOrderedRing K] in
theorem credit_append (V : K) (os ps : List Bool) :
    credit V (os ++ ps) = credit (credit V os) ps :=
  List.foldl_append

theorem credit_success (V : K) : 1 - credit V [true] = (1 - V) / 2 := by
  simp only [credit, List.foldl_cons, List.foldl_nil, Row.ewma, Row.successVal, if_true]
  norm_num
  ring

theorem credit_failure (V : K) : credit V [false] = V / 2 := by
  simp only [credit, List.foldl_cons, List.foldl_nil, Row.ewma, Row.successVal]
  norm_num
  ring

/-- Successes halve the distance to 1. -/
theorem credit_successes (V : K) (n : Nat) :
    1 - credit V (List.replicate n true) = (1 - V) / 2 ^ n := by
  induction n generalizing V with
  | zero => simp [credit]
  | succ n ih =>
    have happ : credit V (List.replicate (n + 1) true) =
        credit (credit V [true]) (List.replicate n true) := credit_append V [true] _
    rw [happ, ih, credit_success, div_div, pow_succ']

/-- Successes raise V unless there are none or V is 1 already. -/
theorem credit_successes_le_iff (V : K) (n : Nat) :
    credit V (List.replicate n true) ≤ V ↔ n = 0 ∨ 1 ≤ V := by
  rw [← sub_le_sub_iff_left 1, credit_successes]
  rcases Nat.eq_zero_or_pos n with rfl | hn
  · simp
  · have hpow : (1 : K) < 2 ^ n := one_lt_pow₀ one_lt_two hn.ne'
    rw [or_iff_right hn.ne', le_div_iff₀ (by positivity)]
    constructor
    · intro h
      by_contra hV
      nlinarith
    · intro hV
      nlinarith

/-- A failure between successes makes up for them exactly if V is close enough to 1. -/
theorem credit_around_failure_le_iff (V : K) (before later : Nat) :
    credit V (List.replicate before true ++ false :: List.replicate later true) ≤ V ↔
      (1 - V) * (2 ^ (before + later + 1) - 1) ≤ 2 ^ before := by
  have happ : credit V (List.replicate before true ++ false :: List.replicate later true) =
      credit (credit (credit V (List.replicate before true)) [false])
        (List.replicate later true) := by
    rw [credit_append]
    exact credit_append _ [false] _
  have hbefore := credit_successes V before
  have hlater := credit_successes (credit (credit V (List.replicate before true)) [false]) later
  rw [credit_failure] at hlater
  rw [happ, credit_failure, ← sub_le_sub_iff_left 1, hlater]
  have hV : credit V (List.replicate before true) = 1 - (1 - V) / 2 ^ before := by
    linarith
  have hpow : (0 : K) < 2 ^ before := by positivity
  have hclear : 1 - (1 - (1 - V) / 2 ^ before) / 2 =
      (2 ^ before + (1 - V)) / (2 ^ before * 2) := by
    field_simp
    ring
  rw [hV, hclear, div_div, le_div_iff₀ (by positivity)]
  have hsplit : (2 : K) ^ (before + later + 1) = 2 ^ before * 2 * 2 ^ later := by ring
  rw [hsplit]
  constructor <;> intro h <;> linarith

end Halving

/-! ## The outcomes of a stream of failures -/

/-- How many chunks are deposited as a batch. -/
def batches (chunks : List (Chunk K)) : Nat :=
  chunks.countP fun c => 0 < c.elapsed ∧ 0 < c.tokens

/-- How many of them come before the first token, and how many from it on. -/
def batchesBefore (chunks : List (Chunk K)) : Nat :=
  batches (chunks.takeWhile fun c => !c.isFirst)

def batchesFrom (chunks : List (Chunk K)) : Nat :=
  batches (chunks.dropWhile fun c => !c.isFirst)

theorem outcome_velocity (capabilityMatch : K) (c : Chunk K) :
    (c.velocityTraces capabilityMatch).map (·.success) = List.replicate (batches [c]) true := by
  unfold Chunk.velocityTraces batches
  split <;> rename_i h <;> simp [h, Chunk.trace]

theorem batches_cons (c : Chunk K) (chunks : List (Chunk K)) :
    batches (c :: chunks) = batches [c] + batches chunks := by
  simp only [batches, List.countP_cons, List.countP_nil]
  omega

/-- After the first token only batches are deposited. -/
theorem outcomes_deposited (capabilityMatch : K) (chunks : List (Chunk K)) :
    (tracesOf capabilityMatch true chunks).map (·.success) =
      List.replicate (batches chunks) true := by
  induction chunks with
  | nil => rfl
  | cons c chunks ih =>
    rw [batches_cons, List.replicate_add]
    simp [tracesOf, Chunk.ttftTraces, outcome_velocity, ih]

/-- The only failure that is deposited is that of the first token. -/
theorem outcomes_failed (capabilityMatch : K) {chunks : List (Chunk K)}
    (hfailed : ∀ c ∈ chunks, c.success = some false) :
    (tracesOf capabilityMatch false chunks).map (·.success) =
      List.replicate (batchesBefore chunks) true ++
        if chunks.any Chunk.isFirst then false :: List.replicate (batchesFrom chunks) true
        else [] := by
  induction chunks with
  | nil => rfl
  | cons c chunks ih =>
    have ih := ih fun d hd => hfailed d (List.mem_cons_of_mem c hd)
    have hc : c.success.getD true = false := by rw [hfailed c List.mem_cons_self]; rfl
    cases hfirst : c.isFirst with
    | true =>
      have hbefore : batchesBefore (c :: chunks) = 0 := by simp [batchesBefore, hfirst, batches]
      have hfrom : batchesFrom (c :: chunks) = batches [c] + batches chunks := by
        rw [batchesFrom, List.dropWhile_cons_of_neg (by simp [hfirst]), batches_cons]
      rw [hbefore, hfrom, List.replicate_add]
      simp [tracesOf, Chunk.ttftTraces, hfirst, hc, Chunk.trace, outcome_velocity,
        outcomes_deposited]
    | false =>
      have hbefore : batchesBefore (c :: chunks) = batches [c] + batchesBefore chunks := by
        rw [batchesBefore, List.takeWhile_cons_of_pos (by simp [hfirst]), batches_cons,
          batchesBefore]
      have hfrom : batchesFrom (c :: chunks) = batchesFrom chunks := by
        rw [batchesFrom, List.dropWhile_cons_of_pos (by simp [hfirst]), batchesFrom]
      rw [hbefore, hfrom]
      simp only [tracesOf, Chunk.ttftTraces, hfirst, Bool.false_and, Bool.false_eq_true, if_false,
        List.nil_append, Bool.or_false, List.map_append, outcome_velocity, ih, List.any_cons,
        Bool.false_or]
      rw [List.replicate_add, List.append_assoc]

/-! ## The stream -/

/-- V of the worker's node is no higher in the second field than in the first. -/
def NotRaised (worker : Worker) (field field' : InMemoryField K) : Prop :=
  ∀ before after, field.rowOf worker.nodeId = some before →
    field'.rowOf worker.nodeId = some after → after.V ≤ before.V

/-- The stream has left V of the node no higher than it was. -/
def NotCredited (worker : Worker) (field : InMemoryField K) (p : Progress K) : Prop :=
  NotRaised worker field p.field

/-- The batches do not outweigh the failure of the first token; without a first token there is
none, or V is 1 already. -/
def FailureHolds (V : K) (chunks : List (Chunk K)) : Prop :=
  if chunks.any Chunk.isFirst then
    (1 - V) * (((2 ^ (batchesBefore chunks + batchesFrom chunks + 1) : ℕ) : K) - 1) ≤
      ((2 ^ batchesBefore chunks : ℕ) : K)
  else batchesBefore chunks = 0 ∨ 1 ≤ V

theorem credit_failed_le_iff [IsStrictOrderedRing K] (capabilityMatch V : K)
    {chunks : List (Chunk K)} (hfailed : ∀ c ∈ chunks, c.success = some false) :
    credit V ((tracesOf capabilityMatch false chunks).map (·.success)) ≤ V ↔
      FailureHolds V chunks := by
  rw [outcomes_failed capabilityMatch hfailed, FailureHolds]
  split
  · push_cast
    exact credit_around_failure_le_iff V _ _
  · rw [List.append_nil]
    exact credit_successes_le_iff V _

/-- Deposits with the outcomes of a stream of failures. -/
theorem notRaised_iff [IsStrictOrderedRing K] {field field' : InMemoryField K} {worker : Worker}
    (capabilityMatch : K) {chunks : List (Chunk K)}
    (hfailed : ∀ c ∈ chunks, c.success = some false) {traces : List (Trace K)}
    (houtcomes : traces.map (·.success) = (tracesOf capabilityMatch false chunks).map (·.success))
    (hrow : ∀ row, field.rowOf worker.nodeId = some row → field'.rowOf worker.nodeId =
      some (traces.foldl (fun r t => r.deposit field.saturationScale t) row)) :
    NotRaised worker field field' ↔
      ∀ row, field.rowOf worker.nodeId = some row → FailureHolds row.V chunks := by
  have hafter : ∀ row, field.rowOf worker.nodeId = some row →
      ((∀ after, field'.rowOf worker.nodeId = some after → after.V ≤ row.V) ↔
        FailureHolds row.V chunks) := by
    intro row h
    rw [← credit_failed_le_iff capabilityMatch row.V hfailed, ← houtcomes]
    simp [hrow row h, foldl_deposit_V]
  constructor
  · exact fun h row hrow => (hafter row hrow).mp fun after => h row after hrow
  · exact fun h before after hbefore => (hafter before hbefore).mpr (h before hbefore) after

/-- What a stream leaves of its worker's row. -/
theorem rowOf_stream {field : InMemoryField K} (hf : field.Consistent) {worker : Worker}
    {row : Row K} (hrow : field.rowOf worker.nodeId = some row) (fmt : Format)
    (clock : Nat → Int) (str : FieldError → String) (capabilityMatch : K) (s : WorkerStream K) :
    (stream fmt clock str worker field capabilityMatch s).field.rowOf worker.nodeId =
      some ((tracesOf capabilityMatch false s.chunks).foldl
        (fun r t => r.deposit field.saturationScale t) row) := by
  have hn : worker.nodeId ∈ field.nodeIds := (hf.rowOf_isSome _).mp (by simp [hrow])
  obtain ⟨q, hq, -, hfield⟩ := Progress.drain_spec (p := .start field) hf hn capabilityMatch
    fmt clock s.chunks
  have hafter := hf.rowOf_run_deposits hrow (tracesOf capabilityMatch false s.chunks)
  have hleft : (stream fmt clock str worker field capabilityMatch s).field = q.field := by
    simp only [stream, hq]
    cases s.ending <;> rfl
  rw [hleft, hfield]
  exact hafter

theorem notCredited_stream_iff [IsStrictOrderedRing K] {field : InMemoryField K}
    (hf : field.Consistent) (worker : Worker) (fmt : Format) (clock : Nat → Int)
    (str : FieldError → String) (capabilityMatch : K) {s : WorkerStream K}
    (hfailed : ∀ c ∈ s.chunks, c.success = some false) :
    NotCredited worker field (stream fmt clock str worker field capabilityMatch s) ↔
      ∀ row, field.rowOf worker.nodeId = some row → FailureHolds row.V s.chunks :=
  notRaised_iff capabilityMatch hfailed rfl fun _ hrow =>
    rowOf_stream hf hrow fmt clock str capabilityMatch s

/-! ## The division of the chat generator -/

section Division

open AnyField

/-- The chunks that the chat generator goes through, up to the first batch that overflows; of this
chunk no batch is deposited. -/
def heard : List (Chunk K) → List (Chunk K)
  | [] => []
  | c :: chunks => if Overflows c then [{ c with tokenCount := none }] else c :: heard chunks

/-- The traces that it deposits. -/
def chatTracesOf (capabilityMatch : K) : Bool → List (Chunk K) → List (Trace K)
  | _, [] => []
  | ttftDeposited, c :: chunks =>
    c.ttftTraces capabilityMatch ttftDeposited ++
      if Overflows c then []
      else c.velocityTraces capabilityMatch ++
        chatTracesOf capabilityMatch (ttftDeposited || c.isFirst) chunks

theorem outcomes_chatTracesOf (capabilityMatch : K) (ttftDeposited : Bool)
    (chunks : List (Chunk K)) :
    (chatTracesOf capabilityMatch ttftDeposited chunks).map (·.success) =
      (tracesOf capabilityMatch ttftDeposited (heard chunks)).map (·.success) := by
  induction chunks generalizing ttftDeposited with
  | nil => rfl
  | cons c chunks ih =>
    by_cases hover : Overflows c
    · have hnone : ({ c with tokenCount := none } : Chunk K).velocityTraces capabilityMatch =
          [] := by
        simp [Chunk.velocityTraces, Chunk.tokens]
      simp only [chatTracesOf, heard, if_pos hover, tracesOf, hnone, List.append_nil]
      cases ttftDeposited <;> cases hfirst : c.isFirst <;>
        simp_all [Chunk.ttftTraces, Chunk.isFirst, Chunk.trace]
    · simp [chatTracesOf, heard, hover, tracesOf, ih]

/-- The chunks it goes through report what the chunks of the worker report. -/
theorem success_of_mem_heard {chunks : List (Chunk K)}
    (hfailed : ∀ c ∈ chunks, c.success = some false) :
    ∀ c ∈ heard chunks, c.success = some false := by
  induction chunks with
  | nil => exact hfailed
  | cons c chunks ih =>
    obtain ⟨hc, hlater⟩ := List.forall_mem_cons.mp hfailed
    rw [heard]
    split
    · exact List.forall_mem_singleton.mpr hc
    · exact List.forall_mem_cons.mpr ⟨hc, ih hlater⟩

/-- The in-memory field takes every deposit on a node that it has. -/
theorem accepts_inMemory {field : InMemoryField K} (hf : field.Consistent) {nodeId : String}
    (hn : nodeId ∈ field.nodeIds) (traces : List (Trace K)) :
    Accepts InMemoryField.depositTrace nodeId field traces ∧
      fieldAfter InMemoryField.depositTrace nodeId field traces =
        field.run (traces.map (.depositTrace nodeId)) := by
  induction traces generalizing field with
  | nil => exact ⟨trivial, rfl⟩
  | cons t traces ih =>
    obtain ⟨hc, hresult, -, -⟩ := hf.depositTrace nodeId t
    rw [if_pos hn] at hresult
    obtain ⟨haccepts, hfield⟩ := ih hc ((field.depositTrace_rowsOnly nodeId t).nodeIds ▸ hn)
    exact ⟨⟨hresult, haccepts⟩, hfield⟩

/-- What the chat generator leaves of the field. -/
theorem field_drainChat (clock : Nat → Int) {worker : Worker} (capabilityMatch : K)
    (chunks : List (Chunk K)) {w : Work K (InMemoryField K) FieldError}
    (hf : w.field.Consistent) (hn : worker.nodeId ∈ w.field.nodeIds) :
    (drainChat InMemoryField.depositTrace clock worker capabilityMatch chunks w).work.field =
      w.field.run ((chatTracesOf capabilityMatch w.ttftDeposited chunks).map
        (.depositTrace worker.nodeId)) := by
  induction chunks generalizing w with
  | nil => rfl
  | cons c chunks ih =>
    by_cases hover : Overflows c
    · obtain ⟨haccepts, hfield⟩ := accepts_inMemory hf hn
        (c.ttftTraces capabilityMatch w.ttftDeposited)
      obtain ⟨-, hr⟩ | ⟨hno, -⟩ :=
        Work.deposits_depositTtft InMemoryField.depositTrace w worker capabilityMatch c
      · simp only [drainChat, Work.onChatChunk, hr, Work.depositBatch_of_overflows _ _ _ _ hover,
          chatTracesOf, if_pos hover, List.append_nil]
        exact hfield
      · exact (hno haccepts).elim
    · set traces := c.ttftTraces capabilityMatch w.ttftDeposited ++
        c.velocityTraces capabilityMatch with htraces
      obtain ⟨haccepts, hfield⟩ := accepts_inMemory hf hn traces
      have hrows : w.field.RowsOnly
          (fieldAfter InMemoryField.depositTrace worker.nodeId w.field traces) := by
        rw [hfield]
        exact (Progress.start w.field).field_after worker.nodeId traces
      obtain ⟨-, hr⟩ | ⟨hno, -⟩ :=
        Work.deposits_onChunk InMemoryField.depositTrace w worker capabilityMatch c
      · have hlater := ih
          (w := Work.count c (w.after InMemoryField.depositTrace worker.nodeId traces))
          (hrows.consistent hf) (hrows.nodeIds ▸ hn)
        have hstep := Work.onChatChunk_of_not InMemoryField.depositTrace w worker capabilityMatch
          fun h => hover h.1
        simp only [drainChat, hstep, hr, Except.mapError, ← htraces, hlater, chatTracesOf,
          if_neg hover, ← List.append_assoc, List.map_append, InMemoryField.run_append]
        exact congrArg (InMemoryField.run · _) hfield
      · exact (hno haccepts).elim

/-- What the chat generator leaves of its worker's V. -/
theorem notRaised_chat_iff [IsStrictOrderedRing K] {field : InMemoryField K}
    (hf : field.Consistent) (worker : Worker) (clock : Nat → Int) (str : FieldError → String)
    (capabilityMatch : K) {s : WorkerStream K} (hfailed : ∀ c ∈ s.chunks, c.success = some false) :
    NotRaised worker field (AnyField.streamChatCompletion InMemoryField.depositTrace clock str
        worker field capabilityMatch s).work.field ↔
      ∀ row, field.rowOf worker.nodeId = some row → FailureHolds row.V (heard s.chunks) := by
  refine notRaised_iff capabilityMatch (success_of_mem_heard hfailed)
    (outcomes_chatTracesOf capabilityMatch false s.chunks) fun row hrow => ?_
  have hn : worker.nodeId ∈ field.nodeIds := (hf.rowOf_isSome _).mp (by simp [hrow])
  rw [AnyField.streamChatCompletion, work_handled,
    field_drainChat clock capabilityMatch s.chunks (w := ⟨field, [], 0, false⟩) hf hn]
  exact hf.rowOf_run_deposits hrow _

end Division

/-- A stream of failures leaves V of its worker no higher than it was, exactly if the failure of
the first token holds against the batches; for the chat generator with its division, against those
before one that overflows. -/
theorem failed_stream_not_credited_iff [Transcendental K] [IsStrictOrderedRing K]
    (router : Router K) (field : InMemoryField K) (hf : field.Consistent)
    (capabilityContext : Option (Dict String K)) (capabilityMatch : K)
    (weightsOverride : Option (Dict String K)) (draw : Nat) (worker : Worker)
    (hworker : router.sampleWorker field capabilityContext weightsOverride draw = .ok worker)
    (clock : Nat → Int) (str : FieldError → String) (execution : Worker → WorkerStream K)
    (hfailed : ∀ c ∈ (execution worker).chunks, c.success = some false) :
    (Leaves (streamChatCompletion router field capabilityContext capabilityMatch weightsOverride
        draw clock str execution) (NotCredited worker field) ↔
      ∀ row, field.rowOf worker.nodeId = some row →
        FailureHolds row.V (execution worker).chunks) ∧
    (Leaves (streamCompletion router field capabilityContext capabilityMatch weightsOverride
        draw clock str execution) (NotCredited worker field) ↔
      ∀ row, field.rowOf worker.nodeId = some row →
        FailureHolds row.V (execution worker).chunks) ∧
    (NotRaised worker field (AnyField.streamChatCompletion InMemoryField.depositTrace clock str
        worker field capabilityMatch (execution worker)).work.field ↔
      ∀ row, field.rowOf worker.nodeId = some row →
        FailureHolds row.V (heard (execution worker).chunks)) := by
  have hgenerate : ∀ fmt, Leaves (generate router field capabilityContext capabilityMatch
      weightsOverride draw clock str execution fmt) (NotCredited worker field) ↔
        ∀ row, field.rowOf worker.nodeId = some row →
          FailureHolds row.V (execution worker).chunks := by
    intro fmt
    rw [leaves_generate_iff hworker]
    exact notCredited_stream_iff hf worker fmt clock str capabilityMatch hfailed
  exact ⟨hgenerate chatFormat, hgenerate completionFormat,
    notRaised_chat_iff hf worker clock str capabilityMatch hfailed⟩

/-! ## A worker that fails -/

/-- A failing worker whose only chunk with a token is the first. -/
noncomputable def failingStream : WorkerStream ℝ :=
  ⟨[⟨some "Simulating token stream...\n", some 0.03, some true, some 1, some false, some 0, none⟩,
    ⟨some "", some 0.1, some false, some 0, some false, some 0, some true⟩], .finished⟩

theorem failingStream_failed : ∀ c ∈ failingStream.chunks, c.success = some false := by
  simp [failingStream]

theorem failingStream_holds_iff (V : ℝ) : FailureHolds V failingStream.chunks ↔ 2 / 3 ≤ V := by
  have hbefore : batchesBefore failingStream.chunks = 0 := by
    simp [batchesBefore, batches, failingStream, Chunk.isFirst]
  have hfrom : batchesFrom failingStream.chunks = 1 := by
    norm_num [batchesFrom, batches, failingStream, Chunk.isFirst, Chunk.elapsed, Chunk.tokens,
      List.countP_cons]
  have hany : failingStream.chunks.any Chunk.isFirst = true := by
    simp [failingStream, Chunk.isFirst]
  rw [FailureHolds, if_pos hany, hbefore, hfrom]
  norm_num
  constructor <;> intro h <;> linarith

/-- At V = 1 the stream costs the worker a quarter. -/
theorem failed_stream_not_credited_iff_baseline :
    Leaves (streamCompletion sampleRouter (sampleField Row.defaultState) none 0.5 none 0
      (fun _ => 100) (fun _ => "") (fun _ => failingStream))
      (NotCredited ⟨"a", ["cpu"]⟩ (sampleField Row.defaultState)) := by
  refine (failed_stream_not_credited_iff sampleRouter (sampleField Row.defaultState)
    (sampleField_consistent _) none 0.5 none 0 ⟨"a", ["cpu"]⟩ (sampleRouter_samples _)
    (fun _ => 100) (fun _ => "") (fun _ => failingStream) failingStream_failed).2.1.mpr ?_
  rintro row ⟨⟩
  rw [failingStream_holds_iff]
  norm_num [Row.defaultState]

/-- At V = 1/2 it raises V. -/
theorem failed_stream_credited :
    ∃ p, streamCompletion sampleRouter (sampleField ⟨0.5, 0.1, 0, 1⟩) none 0.5 none 0
        (fun _ => 100) (fun _ => "") (fun _ => failingStream) = .ok p ∧
      (∀ c ∈ failingStream.chunks, c.success = some false) ∧
      ¬NotCredited ⟨"a", ["cpu"]⟩ (sampleField ⟨0.5, 0.1, 0, 1⟩) p := by
  refine ⟨stream completionFormat (fun _ => 100) (fun _ => "") ⟨"a", ["cpu"]⟩
    (sampleField ⟨0.5, 0.1, 0, 1⟩) 0.5 failingStream, ?_, failingStream_failed, fun h => ?_⟩
  · simp [streamCompletion, generate, sampleRouter_samples]
  · have hholds := (notCredited_stream_iff (sampleField_consistent _) _ _ _ _ _
      failingStream_failed).mp h ⟨0.5, 0.1, 0, 1⟩ rfl
    rw [failingStream_holds_iff] at hholds
    norm_num at hholds

end Streaming

end StigmergicMesh
