import StigmergicMesh.Library.JsonText
import StigmergicMesh.Library.Text
import StigmergicMesh.Streaming.Frames

/-!
# The response body

The text that the generators yield. A reader that splits it at line breaks finds every line that was
yielded, and an empty one after it, whatever stands in the texts and in the messages of exceptions.
-/

namespace StigmergicMesh.Streaming

variable {K : Type*} (repr : ℚ → String)

/-- `_sse_line`. -/
def sseLine (data : Json) : String := "data: " ++ data.dumps repr ++ "\n\n"

/-- The string that is yielded. -/
def Line.text : Line → String
  | .data document => sseLine repr document
  | .done => "data: [DONE]\n\n"

/-- What precedes the two line feeds. -/
def Line.body : Line → String
  | .data document => "data: " ++ document.dumps repr
  | .done => "data: [DONE]"

/-- The body of the response. -/
def responseText (lines : List Line) : String := String.join (lines.map (Line.text repr))

/-! ## One line -/

theorem Line.text_eq (line : Line) : line.text repr = line.body repr ++ "\n" ++ ("" ++ "\n") := by
  cases line with
  | data document => simp [text, body, sseLine, String.append_assoc]
  | done => rfl

/-- A line is a frame, an error frame or the last line. -/
theorem AnyField.Framed.cases {F ε : Type*} {fmt : Format} {clock : Nat → Int} {worker : Worker}
    {s : WorkerStream K} {received : List (Chunk K)} {error : Option String} {e : Emission K F ε}
    (h : Framed fmt clock worker s received error e) {line : Line} (hline : line ∈ e.lines) :
    (∃ created n c, line = .data (fmt.frame created worker n (c : Chunk K))) ∨
      (∃ message, line = .data (errorFrame message)) ∨ line = .done := by
  simp only [h.lines, List.mem_append, List.mem_singleton, Option.mem_toList] at hline
  obtain (hline | hline) | hline := hline
  · obtain ⟨p, -, rfl⟩ := List.mem_map.mp hline
    exact Or.inl ⟨_, _, _, rfl⟩
  · obtain ⟨message, -, rfl⟩ := Option.map_eq_some_iff.mp hline
    exact Or.inr (Or.inl ⟨message, rfl⟩)
  · exact Or.inr (Or.inr hline)

/-- The frames have no fractions, so their text does not depend on `repr`. -/
theorem printable_frame {fmt : Format} (hfmt : fmt = chatFormat ∨ fmt = completionFormat)
    (created : Int) (worker : Worker) (chunkCount : Nat) (c : Chunk K) :
    Json.Printable (Line.body repr (.data (fmt.frame created worker chunkCount c))) := by
  have hdumps : Json.dumps repr (fmt.frame created worker chunkCount c) =
      Json.dumps (fun _ => "") (fmt.frame created worker chunkCount c) := by
    rcases hfmt with rfl | rfl <;> cases hdone : c.done.getD false <;>
      simp [Format.frame, Format.frameOf, chatFormat, completionFormat, hdone, Json.dumps,
        Json.dumpMembers, Json.dumpItems]
  have hprintable := Json.printable_dumps (fun _ => "") (fun _ => by decide)
    (fmt.frame created worker chunkCount c)
  rw [← hdumps] at hprintable
  exact .append (by decide) hprintable

theorem printable_errorFrame (message : String) :
    Json.Printable (Line.body repr (.data (errorFrame message))) :=
  .append (by decide) (Json.printable_dumps (fun _ => "") (fun _ => by decide)
    (errorFrame message))

/-! ## The lines of the body -/

/-- Every line is found with an empty one after it, if its text is printable. -/
theorem lines_responseText {lines : List Line}
    (h : ∀ line ∈ lines, Json.Printable (line.body repr)) :
    Text.lines (responseText repr lines) = lines.flatMap fun line => [line.body repr, ""] := by
  induction lines with
  | nil => rfl
  | cons line lines ih =>
    obtain ⟨hline, hlines⟩ := List.forall_mem_cons.mp h
    have hbody : ∀ c ∈ (line.body repr).toList, Text.isLineBreak c = false := fun c hc =>
      Text.isLineBreak_of_printable (hline c hc)
    have hcons : responseText repr (line :: lines) = line.text repr ++ responseText repr lines := by
      simp [responseText]
    rw [hcons, Line.text_eq, String.append_assoc, Text.lines_append hbody,
      Text.lines_append (by simp), ih hlines]
    rfl

/-- Whatever a generator yields, each line of it is one line of the body. -/
theorem lines_framed {F ε : Type*} {fmt : Format} (hfmt : fmt = chatFormat ∨ fmt = completionFormat)
    {clock : Nat → Int} {worker : Worker} {s : WorkerStream K} {received : List (Chunk K)}
    {error : Option String} {e : AnyField.Emission K F ε}
    (h : AnyField.Framed fmt clock worker s received error e) :
    Text.lines (responseText repr e.lines) = e.lines.flatMap fun line => [line.body repr, ""] := by
  apply lines_responseText
  intro line hline
  obtain ⟨created, n, c, rfl⟩ | ⟨message, rfl⟩ | rfl := h.cases hline
  · exact printable_frame repr hfmt created worker n c
  · exact printable_errorFrame repr message
  · show Json.Printable "data: [DONE]"
    decide

end StigmergicMesh.Streaming
