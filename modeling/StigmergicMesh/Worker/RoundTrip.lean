import StigmergicMesh.Streaming.Wire
import StigmergicMesh.Worker.Vllm

/-!
# The completion stream read by the vLLM client

The endpoint writes what `GPUvLLMWorkerNode.execute_streaming` reads. The client's `aiter_lines`
splits the body as `splitlines` does. Of a line that the generator yields the client takes the text
of its choice, and nothing of the empty lines between; an error frame has no choice, so the client
does not see that the generator has raised.
-/

namespace StigmergicMesh.WorkerNode.GPUvLLMWorkerNode

open Streaming AnyField

variable (loads : String → Loaded) (str : Json.AccessError → String) (repr : ℚ → String)

/-! ## One line -/

theorem tokenText_empty : tokenText loads str "" = .ok none := by
  simp [tokenText]

theorem tokenText_done : tokenText loads str "data: [DONE]" = .ok none := by
  unfold tokenText
  rw [if_neg (by decide), if_pos (by decide)]

/-- A line with an object is no last line, so the object is decoded. -/
theorem tokenText_object {members : List (String × Json)}
    (hloads : loads ((Json.object members).dumps repr) = .value (.object members)) :
    tokenText loads str (Line.body repr (.data (.object members))) =
      (textOf (.object members)).mapError str := by
  set line := Line.body repr (.data (.object members)) with hline
  obtain ⟨rest, hrest⟩ : ∃ rest, line.toList = 'd' :: ("ata: \x7b".toList ++ rest) :=
    ⟨((Json.object members).dumps repr).toList.drop 1, by simp [hline, Line.body, Json.dumps]⟩
  have hempty : line ≠ "" := by
    intro h
    simp [h] at hrest
  have hdata : Text.startsWith "data: " line = true := by simp [Text.startsWith, hrest]
  have hdone : Text.strip line.toList ≠ "data: [DONE]".toList := by
    intro hstrip
    obtain ⟨ws, happend, -⟩ := Text.exists_spaces_of_strip (a := 'd')
      ("ata: \x7b".toList ++ rest) (by decide)
    rw [← hrest, hstrip, hrest] at happend
    simp at happend
  have hdrop : Text.dropFirst 6 line = (Json.object members).dumps repr := by
    simp [Text.dropFirst, hline, Line.body]
  unfold tokenText
  rw [if_neg (by simp [hdata, hempty]), if_neg hdone, hdrop, hloads]
  cases htext : textOf (.object members) <;> simp [htext, Except.mapError]

/-- A line yielded for `stream_completion` gives the client the text of its choice. -/
theorem tokenText_line {K F ε : Type*} {created : Nat → Int} {worker : Worker} {s : WorkerStream K}
    {received : List (Chunk K)} {error : Option String} {e : Emission K F ε}
    (hframed : Framed completionFormat created worker s received error e)
    (hloads : ∀ document, .data document ∈ e.lines →
      loads (document.dumps repr) = .value document) {line : Line} (hline : line ∈ e.lines) :
    tokenText loads str (line.body repr) = .ok (line.choice.bind completionText) := by
  obtain ⟨created, n, c, rfl⟩ | ⟨message, rfl⟩ | rfl := hframed.cases hline
  · exact (tokenText_object loads str repr (hloads _ hline)).trans rfl
  · exact (tokenText_object loads str repr (hloads _ hline)).trans rfl
  · exact tokenText_done loads str

/-! ## A response -/

/-- What the client takes from the lines of a response, if it can decode each. -/
theorem takenTexts_lines {lines : List Line} {text : Line → Option Json}
    (h : ∀ line ∈ lines, tokenText loads str (line.body repr) = .ok (text line)) :
    let body := lines.flatMap fun line => [line.body repr, ""]
    takenTexts loads str body = lines.filterMap text ∧
      ∀ line ∈ body, Raises loads str line = false := by
  induction lines with
  | nil => exact ⟨rfl, nofun⟩
  | cons line lines ih =>
    obtain ⟨hline, hlines⟩ := List.forall_mem_cons.mp h
    obtain ⟨htexts, hraises⟩ := ih hlines
    have hempty := tokenText_empty loads str
    simp only [List.flatMap_cons, List.cons_append, List.nil_append, List.forall_mem_cons]
    refine ⟨?_, raises_of_ok hline, raises_of_ok hempty, hraises⟩
    rw [takenTexts_cons hline, takenTexts_cons hempty, htexts]
    cases htext : text line <;> simp [htext]

/-- The texts of frames are those of their chunks. -/
theorem filterMap_framesOf {K : Type*} (clock : Nat → Int) (worker : Worker) (first : Nat)
    (chunks : List (Chunk K)) :
    (framesOf completionFormat clock worker first chunks).filterMap
      (fun line => line.choice.bind completionText) =
        chunks.map fun c => .string (c.chunkText.getD "") := by
  induction chunks generalizing first with
  | nil => rfl
  | cons c chunks ih => exact congrArg (_ :: ·) (ih (first + 1))

section Run

variable {K L F ε : Type*} [Sub L] (node : GPUvLLMWorkerNode) (clock : Nat → L) (load : Nat → Int)
  (upstream : Request → Connection) (prompt : String) (maxTokens : Int)

/-- The client yields the texts of the chunks that the generator has received, and a successful last
chunk, also if the generator has raised. -/
theorem executeStreaming_framed {created : Nat → Int} {worker : Worker} {s : WorkerStream K}
    {received : List (Chunk K)} {error : Option String} {e : Emission K F ε}
    (hframed : Framed completionFormat created worker s received error e)
    (hloads : ∀ document, .data document ∈ e.lines →
      loads (document.dumps repr) = .value document)
    (hreceives : (upstream (node.streamingRequest prompt maxTokens)).Receives
      (Text.lines (responseText repr e.lines)) none) :
    ∃ tokens last,
      emitted load (node.executeStreaming loads str clock upstream prompt maxTokens) =
        tokens ++ [last] ∧
      TokenStream (received.map fun c => .string (c.chunkText.getD "")) False tokens last := by
  obtain ⟨htexts, hraises⟩ := takenTexts_lines loads str repr fun line hline =>
    tokenText_line loads str repr hframed hloads hline
  rw [lines_framed repr (.inr rfl) hframed] at hreceives
  have hstream := executeStreaming_tokenStream loads str node clock load upstream prompt maxTokens _
    none hreceives
  have hfailed : ((∃ line ∈ e.lines.flatMap fun line => [line.body repr, ""],
      Raises loads str line = true) ∨ (none : Option String).isSome) ↔ False := by
    simp only [Option.isSome_none, Bool.false_eq_true, or_false, iff_false, not_exists, not_and,
      Bool.not_eq_true]
    exact hraises
  have hreceived : e.lines.filterMap (fun line => line.choice.bind completionText) =
      received.map fun c => .string (c.chunkText.getD "") := by
    rw [hframed.lines, List.filterMap_append, List.filterMap_append, filterMap_framesOf]
    cases error <;> simp [Line.choice, errorFrame, Json.member]
  rwa [htexts, hreceived, hfailed] at hstream

/-- For every sequence of chunks that is served without an exception, whatever their texts are, the
client that reads the response yields a token for each chunk, with its text, and then a successful
last chunk. -/
theorem vllm_reads_completion_stream [Field K] [LinearOrder K]
    (depositTrace : F → String → Trace K → Except ε Unit × F) (created : Nat → Int)
    (strError : ε → String) (worker : Worker) (field : F) (capabilityMatch : K)
    (s : WorkerStream K)
    (hserved : ¬Raised s (AnyField.streamCompletion depositTrace created strError worker field
      capabilityMatch s).work.calls)
    (hloads : ∀ document, .data document ∈ (AnyField.streamCompletion depositTrace created strError
      worker field capabilityMatch s).lines → loads (document.dumps repr) = .value document)
    (hreceives : (upstream (node.streamingRequest prompt maxTokens)).Receives (Text.lines
      (responseText repr (AnyField.streamCompletion depositTrace created strError worker field
        capabilityMatch s).lines)) none) :
    ∃ tokens last,
      emitted load (node.executeStreaming loads str clock upstream prompt maxTokens) =
        tokens ++ [last] ∧
      TokenStream (s.chunks.map fun c => .string (c.chunkText.getD "")) False tokens last := by
  obtain ⟨received, hframed⟩ := stream_framed depositTrace completionFormat created strError worker
    field capabilityMatch s
  obtain ⟨hpassed, -⟩ := not_or.mp hserved
  have hreceived : s.chunks = received := by
    rw [hframed.chunks, hframed.pulled (not_not.mp hpassed), List.append_nil]
  rw [hreceived]
  exact executeStreaming_framed loads str repr node clock load upstream prompt maxTokens hframed
    hloads hreceives

end Run

/-! ## One response -/

def replayed : List String → Arrivals
  | [] => .stops (.pure () ())
  | line :: lines => .next (.pure () line) (replayed lines)

/-- A server that sends the lines. -/
def replay (lines : List String) (_ : Request) : Connection where
  enter := .pure () ()
  status := none
  arrivals := replayed lines
  leave := .pure () ()

theorem replay_receives (lines : List String) (request : Request) :
    (replay lines request).Receives lines none := by
  have hreads : (replayed lines).reads = (lines, .returned ()) := by
    induction lines with
    | nil => rfl
    | cons line lines ih => simp [replayed, Arrivals.reads, ih]
  exact ⟨hreads, rfl⟩

/-- A decoder that knows the documents. -/
def loadsOf (documents : List Json) (text : String) : Loaded :=
  match documents.find? fun document => document.dumps (fun _ => "") = text with
  | some document => .value document
  | none => .malformed

theorem loadsOf_dumps {documents : List Json}
    (h : (documents.map (Json.dumps fun _ => "")).Nodup) {document : Json}
    (hdocument : document ∈ documents) :
    loadsOf documents (document.dumps fun _ => "") = .value document := by
  unfold loadsOf
  split
  · rename_i found hfound
    have htext : found.dumps (fun _ => "") = document.dumps (fun _ => "") := by
      simpa using List.find?_some hfound
    rw [List.inj_on_of_nodup_map h (List.mem_of_find?_eq_some hfound) hdocument htext]
  · rename_i hnone
    exact absurd (decide_eq_true rfl) (List.find?_eq_none.mp hnone document hdocument)

/-- A token that reads like the end of a stream, and the last chunk. -/
def doneChunks : List (Chunk ℚ) :=
  [⟨some "data: [DONE]\n\n", some 0.5, some true, some 1, some true, some 1, none⟩,
    ⟨some "", some 1, some false, some 0, some true, some 0, some true⟩]

/-- The chunks served over a field that takes every trace. -/
def doneEmission : Emission ℚ Unit String :=
  AnyField.streamCompletion (fun field _ _ => (.ok (), field)) (fun _ => 100) id ⟨"a", []⟩ () 1
    ⟨doneChunks, .finished⟩

def doneFrames : List Json :=
  doneChunks.zipIdx.map fun p => completionFormat.frame 100 ⟨"a", []⟩ p.2 p.1

theorem doneEmission_eq : doneEmission =
    ⟨doneFrames.map .data ++ [.done], [], ⟨(), [⟨"a", ⟨0.5, 1, true, 1, 1⟩, .ok ()⟩,
      ⟨"a", ⟨0.5, 1, true, 1, 1⟩, .ok ()⟩], 2, true⟩⟩ := by
  simp [doneEmission, AnyField.streamCompletion, AnyField.stream, Drained.handled, drain,
    Work.onChunk, Work.depositTtft, Work.depositVelocity, Work.deposit, doneChunks, Chunk.elapsed,
    Chunk.isFirst, Chunk.tokens, doneFrames]
  norm_num
  rfl

theorem vllm_reads_done_text :
    ∃ tokens last,
      emitted (fun _ => 1) (executeStreaming (loadsOf doneFrames) (fun _ => "")
        ⟨"gpu-1", "", "", "default"⟩ (fun n => (n : ℚ))
        (replay (Text.lines (responseText (fun _ => "") doneEmission.lines))) "Hi" 16) =
        tokens ++ [last] ∧
      TokenStream (doneChunks.map fun c => .string (c.chunkText.getD "")) False tokens last := by
  apply vllm_reads_completion_stream (loadsOf doneFrames) (fun _ => "") (fun _ => "")
    ⟨"gpu-1", "", "", "default"⟩ (fun n => (n : ℚ)) (fun _ => 1) _ "Hi" 16
    (fun field _ _ => (.ok (), field)) (fun _ => 100) id ⟨"a", []⟩ () 1 ⟨doneChunks, .finished⟩
    ?_ ?_ (replay_receives _ _)
  · have hserved : ¬Raised ⟨doneChunks, .finished⟩ doneEmission.work.calls := by
      simp [doneEmission_eq, Raised, AllPassed]
    exact hserved
  · intro document hdocument
    have hnodup : (doneFrames.map (Json.dumps fun _ => "")).Nodup := by decide +kernel
    have hlines : .data document ∈ doneEmission.lines := hdocument
    rw [doneEmission_eq] at hlines
    exact loadsOf_dumps hnodup (by simpa using hlines)

end StigmergicMesh.WorkerNode.GPUvLLMWorkerNode
