import StigmergicMesh.Worker.Node

/-!
# The vLLM client

`GPUvLLMWorkerNode.execute_streaming` takes one token from every `data: ` line with a choice and
skips the others. The locals after some tokens depend on their number only, so what lines decode to
has a closed form, `decode_eq`.
-/

namespace StigmergicMesh.WorkerNode

variable {K : Type*}

/-- The attributes that the methods read. -/
structure GPUvLLMWorkerNode where
  nodeId : String
  baseUrl : String
  apiKey : String
  model : String

namespace GPUvLLMWorkerNode

variable (loads : String → Loaded) (str : Json.AccessError → String) (node : GPUvLLMWorkerNode)

def headers : List (String × String) :=
  ("Content-Type", "application/json") ::
    if node.apiKey ≠ "" then [("Authorization", "Bearer " ++ node.apiKey)] else []

/-- What `execute_inference` posts. -/
def inferenceRequest (prompt : String) (maxTokens : Int) : Request where
  url := node.baseUrl ++ "/v1/completions"
  headers := node.headers
  json := .object [("model", .string node.model), ("prompt", .string prompt),
    ("max_tokens", .number maxTokens)]

/-- What `execute_streaming` posts. -/
def streamingRequest (prompt : String) (maxTokens : Int) : Request where
  url := node.baseUrl ++ "/v1/completions"
  headers := node.headers
  json := .object [("model", .string node.model), ("prompt", .string prompt),
    ("max_tokens", .number maxTokens), ("stream", .bool true)]

/-- `data.get("choices", [])` and what is taken from it. -/
def textOf (data : Json) : Except Json.AccessError (Option Json) :=
  match data.get "choices" (.array []) with
  | .error e => .error e
  | .ok choices =>
    if choices.truthy then
      match choices.first with
      | .error e => .error e
      | .ok choice =>
        match choice.get "text" (.string "") with
        | .error e => .error e
        | .ok text => .ok (some text)
    else .ok none

/-- The text of the token on a line, or nothing for a line that is skipped. -/
def tokenText (line : String) : Except String (Option Json) :=
  if line = "" ∨ Text.startsWith "data: " line = false then .ok none
  else if Text.strip line.toList = "data: [DONE]".toList then .ok none
  else
    match loads (Text.dropFirst 6 line) with
    | .malformed => .ok none
    | .raised message => .error message
    | .value data =>
      match textOf data with
      | .error e => .error (str e)
      | .ok text => .ok text

section Generator

variable [Sub K] (clock : Nat → K)

/-- The chunk of a token. -/
def tokenChunk (l : Locals) (text : Json) (load : Int) : TokenChunk K where
  chunkText := text
  latencySec := l.elapsed clock
  isFirstToken := !l.ttftSent
  tokenCount := 1
  totalTokens := l.totalTokens + 1
  success := true
  activeLoad := max 0 (load - 1)
  nodeId := node.nodeId
  error := none
  done := false

/-- The chunk after the last line. -/
def finalChunk (l : Locals) (load : Int) : TokenChunk K where
  chunkText := .string ""
  latencySec := l.elapsed clock
  isFirstToken := false
  tokenCount := 0
  totalTokens := l.totalTokens
  success := true
  activeLoad := max 0 (load - 1)
  nodeId := node.nodeId
  error := none
  done := true

/-- The body of the loop. -/
def onLine (l : Locals) (line : String) : Locals × Except String (Option (Int → TokenChunk K)) :=
  match tokenText loads str line with
  | .error message => (l, .error message)
  | .ok none => (l, .ok none)
  | .ok (some text) =>
    (⟨true, l.totalTokens + 1, l.readings + 1⟩, .ok (some (node.tokenChunk clock l text)))

def client : Client K where
  request := node.streamingRequest
  onLine := node.onLine loads str clock
  atEnd := fun l => some (node.finalChunk clock l)

/-- What `execute_inference` makes of a document; the clock has been read before. -/
def resultOf (prompt : String) (maxTokens : Int) (l : Locals) (data : Json) :
    Except String (Int → Result K) :=
  match textOf data with
  | .error e => .error (str e)
  | .ok choice =>
    let text := choice.getD (.string "")
    match data.get "usage" (.object []) with
    | .error e => .error (str e)
    | .ok usage =>
      match countWords text with
      | .error e => .error (str e)
      | .ok words =>
        match usage.get "completion_tokens" (.number words) with
        | .error e => .error (str e)
        | .ok tokens => .ok fun load =>
          { nodeId := node.nodeId
            prompt := prompt
            maxTokens := maxTokens
            tokens := tokens
            latencySec := l.elapsed clock
            success := .bool true
            text := some text
            error := none
            activeLoad := max 0 load }

/-- `execute_inference`. -/
def executeInference (exchange : Request → Exchange) (prompt : String) (maxTokens : Int) :
    Gen Locals (Int → TokenChunk K) String (Int → Result K) :=
  inference clock node.nodeId (exchange (node.inferenceRequest prompt maxTokens)) prompt maxTokens
    (node.resultOf str clock prompt maxTokens)

/-- `execute_streaming`. -/
def executeStreaming (upstream : Request → Connection) (prompt : String) (maxTokens : Int) :
    Gen Locals (Int → TokenChunk K) String Unit :=
  (node.client loads str clock).executeStreaming clock node.nodeId upstream prompt maxTokens

end Generator

/-! ## What lines decode to -/

/-- The line cannot be decoded. -/
def Raises (line : String) : Bool :=
  match tokenText loads str line with
  | .error _ => true
  | .ok _ => false

/-- The text of the first choice of a `data: ` line. -/
def choiceText (line : String) : Option Json :=
  if Text.startsWith "data: " line then
    match loads (Text.dropFirst 6 line) with
    | .value data =>
      match data.member "choices" with
      | some (.array (choice :: _)) => some ((choice.member "text").getD (.string ""))
      | _ => none
    | _ => none
  else none

/-- The texts of the lines before the first that cannot be decoded. -/
def textsOf (lines : List String) : List Json :=
  (lines.takeWhile fun line => !Raises loads str line).filterMap (choiceText loads)

/-- The text that the loop takes from a line. -/
def taken (line : String) : Option Json :=
  match tokenText loads str line with
  | .error _ => none
  | .ok text => text

/-- The texts that the loop takes before the first line that cannot be decoded. -/
def takenTexts (lines : List String) : List Json :=
  (lines.takeWhile fun line => !Raises loads str line).filterMap (taken loads str)

section Lines

variable {loads str} {line : String} {text : Option Json}
  (h : tokenText loads str line = .ok text)

include h

theorem raises_of_ok : Raises loads str line = false := by
  simp [Raises, h]

theorem takenTexts_cons (lines : List String) :
    takenTexts loads str (line :: lines) = text.toList ++ takenTexts loads str lines := by
  have hraises := raises_of_ok h
  have htaken : taken loads str line = text := by simp [taken, h]
  cases text <;> simp [takenTexts, hraises, htaken]

end Lines

/-- What is taken from a document that raises nothing. -/
theorem textOf_eq {data : Json} {text : Option Json} (h : textOf data = .ok text) :
    text = match data.member "choices" with
      | some (.array (choice :: _)) => some ((choice.member "text").getD (.string ""))
      | _ => none := by
  simp only [textOf] at h
  rcases hchoices : data.get "choices" (.array []) with e | choices
  · simp [hchoices] at h
  · have hmember := Json.get_eq_ok hchoices
    simp only [hchoices] at h
    split at h
    · rcases hfirst : choices.first with e | choice
      · simp [hfirst] at h
      · rcases htext : choice.get "text" (.string "") with e | t
        · simp [hfirst, htext] at h
        · obtain rfl : some t = text := by simpa [hfirst, htext] using h
          rcases Json.first_eq_ok hfirst with ⟨xs, rfl⟩ | ⟨s, rfl⟩
          · have hdata : data.member "choices" = some (.array (choice :: xs)) := by
              cases hm : data.member "choices" <;> simp_all
            simp [hdata, Json.get_eq_ok htext]
          · cases htext
    · rename_i hfalse
      obtain rfl : none = text := by simpa using h
      split
      · rename_i choice xs hdata
        simp [hmember, hdata, Json.truthy] at hfalse
      · rfl

/-- A line that ends the stream for the server is no document. -/
theorem loads_of_done (hloads : ∀ text : String, Text.strip text.toList = "[DONE]".toList →
    loads text = .malformed) {line : String} (hdata : Text.startsWith "data: " line = true)
    (hdone : Text.strip line.toList = "data: [DONE]".toList) :
    loads (Text.dropFirst 6 line) = .malformed := by
  obtain ⟨rest, hrest⟩ := List.isPrefixOf_iff_prefix.mp hdata
  refine hloads _ ?_
  have hdrop : (Text.dropFirst 6 line).toList = rest := by
    simp [Text.dropFirst, ← hrest]
  rw [hdrop]
  rw [← hrest] at hdone
  exact (Text.strip_of_strip_append (a := 'd') (p := "ata: ".toList) (t := "[DONE]".toList)
    (by decide) hdone).trans (by decide)

section Texts

variable {loads} (hloads : ∀ text : String, Text.strip text.toList = "[DONE]".toList →
  loads text = .malformed)

include hloads

/-- A line that can be decoded gives the text of its first choice. -/
theorem tokenText_eq {line : String} {text : Option Json}
    (h : tokenText loads str line = .ok text) : text = choiceText loads line := by
  unfold tokenText at h
  unfold choiceText
  split_ifs at h with hskip hdone <;> split_ifs with hdata
  · rcases hskip with rfl | hskip
    · exact absurd hdata (by decide)
    · simp [hskip] at hdata
  · exact (Except.ok.inj h).symm
  · rw [loads_of_done loads hloads hdata hdone]
    exact (Except.ok.inj h).symm
  · exact (Except.ok.inj h).symm
  · split at h
    · rename_i hl
      rw [hl]
      exact (Except.ok.inj h).symm
    · cases h
    · rename_i data hl
      rw [hl]
      split at h
      · cases h
      · rename_i t ht
        rw [← Except.ok.inj h]
        exact textOf_eq ht
  · simp_all

/-- What the loop takes is what the lines say. -/
theorem takenTexts_eq (lines : List String) :
    takenTexts loads str lines = textsOf loads str lines := by
  apply List.filterMap_congr
  intro line hline
  have hraises := List.mem_takeWhile_imp hline
  rcases htext : tokenText loads str line with message | text
  · simp [Raises, htext] at hraises
  · simpa [taken, htext] using tokenText_eq str hloads htext

end Texts

/-- The locals after `n` more tokens. -/
def after (l : Locals) (n : Nat) : Locals :=
  ⟨l.ttftSent || decide (0 < n), l.totalTokens + n, l.readings + n⟩

@[simp] theorem after_zero (l : Locals) : after l 0 = l := by simp [after]

theorem after_after (l : Locals) (m n : Nat) : after (after l m) n = after l (m + n) := by
  have hsent : decide (0 < m + n) = (decide (0 < m) || decide (0 < n)) := by
    rw [← Bool.decide_or, decide_eq_decide]
    omega
  simp only [after, Locals.mk.injEq, hsent, Bool.or_assoc, true_and]
  exact ⟨by push_cast; omega, by omega⟩

section Drained

variable [Sub K] (clock : Nat → K)

/-- What lines decode to. -/
theorem decode_eq (l : Locals) (lines : List String) :
    let texts := takenTexts loads str lines
    let d := (node.client loads str clock).decode l lines
    d.chunks = texts.mapIdx (fun i text => node.tokenChunk clock (after l i) text) ∧
      d.locals = after l texts.length ∧
      (d.error.isSome ↔ ∃ line ∈ lines, Raises loads str line = true) := by
  induction lines generalizing l with
  | nil => simp [takenTexts, Client.decode, after]
  | cons line lines ih =>
    rcases hline : tokenText loads str line with message | text
    · simp [takenTexts, Client.decode, client, onLine, Raises, hline, after]
    · have hraises := raises_of_ok hline
      have hcons := takenTexts_cons hline lines
      rcases text with _ | text
      · obtain ⟨hchunks, hlocals, herror⟩ := ih l
        simp only [client] at hchunks hlocals herror
        simp [Client.decode, client, onLine, hline, hcons, hraises, hchunks, hlocals, herror]
      · obtain ⟨hchunks, hlocals, herror⟩ := ih (after l 1)
        have hnext : (⟨true, l.totalTokens + 1, l.readings + 1⟩ : Locals) = after l 1 := by
          simp [after]
        simp only [client, after_after, Nat.add_comm 1] at hchunks hlocals herror
        simp [Client.decode, client, onLine, hline, hnext, hchunks, hlocals, herror, hcons, hraises,
          List.mapIdx_cons]

/-- The chunk that closes a stream: of the exception if there is one, and else the final one. -/
theorem closing_spec (l : Locals) (failure : Option String) :
    ∃ last : Int → TokenChunk K,
      (node.client loads str clock).closing clock node.nodeId l failure = [last] ∧
      ∀ load, (last load).done = true ∧ (last load).totalTokens = l.totalTokens ∧
        ((last load).isFirstToken = true → l.ttftSent = false) ∧
        ((last load).success = true ↔ failure = none) := by
  cases failure with
  | none => exact ⟨node.finalChunk clock l, rfl, fun load => by simp [finalChunk]⟩
  | some message => exact ⟨_, rfl, fun load => by simp [errorChunk]⟩

/-- The chunks of the tokens; `load` is what each of them reads. -/
def tokenChunks (load : Nat → Int) (texts : List Json) : List (TokenChunk K) :=
  texts.mapIdx fun i text => node.tokenChunk clock (after .start i) text (load i)

theorem getElem?_tokenChunks {load : Nat → Int} {texts : List Json} {k : Nat} {c : TokenChunk K}
    (h : (node.tokenChunks clock load texts)[k]? = some c) :
    ∃ text, c = node.tokenChunk clock (after .start k) text (load k) := by
  obtain ⟨text, -, rfl⟩ := Option.map_eq_some_iff.mp ((List.getElem?_mapIdx ..).symm.trans h)
  exact ⟨text, rfl⟩

/-- The chunks of the tokens and one that closes them. -/
theorem tokenStream_tokenChunks (load : Nat → Int) {texts : List Json} {failed : Prop}
    {last : TokenChunk K} (hdone : last.done = true) (htotal : last.totalTokens = texts.length)
    (hfirst : last.isFirstToken = true → texts = []) (hsuccess : last.success = true ↔ ¬failed) :
    TokenStream texts failed (node.tokenChunks clock load texts) last where
  texts := by simp [tokenChunks, tokenChunk, List.mapIdx_eq_zipIdx_map, Function.comp_def]
  numbered := by
    intro k c hk
    obtain ⟨text, rfl⟩ := getElem?_tokenChunks node clock hk
    simp [tokenChunk, after, Locals.start]
  first := by
    intro k c hk hc
    rw [List.getElem?_append] at hk
    split at hk
    · obtain ⟨text, rfl⟩ := getElem?_tokenChunks node clock hk
      simpa [tokenChunk, after, Locals.start] using hc
    · obtain ⟨hlt, rfl⟩ := List.getElem?_eq_some_iff.mp hk
      have hempty := hfirst (by simpa using hc)
      simpa [tokenChunks, hempty] using hlt
  unfinished := by
    intro c hc
    obtain ⟨i, hi, rfl⟩ := List.mem_mapIdx.mp hc
    rfl
  done := hdone
  total := by simpa [tokenChunks] using htotal
  success := hsuccess

/-- A drained generator yields a token for each text that the loop takes, and a last chunk that
says whether something raised. -/
theorem executeStreaming_tokenStream (load : Nat → Int) (upstream : Request → Connection)
    (prompt : String) (maxTokens : Int) (lines : List String) (ending : Option String)
    (h : (upstream (node.streamingRequest prompt maxTokens)).Receives lines ending) :
    ∃ tokens last,
      emitted load (node.executeStreaming loads str clock upstream prompt maxTokens) =
        tokens ++ [last] ∧
      TokenStream (takenTexts loads str lines)
        ((∃ line ∈ lines, Raises loads str line = true) ∨ ending.isSome) tokens last := by
  obtain ⟨hchunks, hlocals, herror⟩ := decode_eq loads str node clock .start lines
  have houtputs := (node.client loads str clock).outputs_executeStreaming clock node.nodeId upstream
    prompt maxTokens h
  dsimp only at houtputs
  set d := (node.client loads str clock).decode .start lines
  set texts := takenTexts loads str lines
  obtain ⟨last, hlast, hclosing⟩ := closing_spec loads str node clock d.locals (d.error.or ending)
  rw [hlast, hchunks] at houtputs
  obtain ⟨hdone, htotal, hfirst, hsuccess⟩ := hclosing (load texts.length)
  refine ⟨node.tokenChunks clock load texts, last (load texts.length), ?_,
    tokenStream_tokenChunks node clock load hdone ?_ ?_ ?_⟩
  · rw [emitted, executeStreaming, houtputs]
    simp [tokenChunks, List.mapIdx_append, Function.comp_def]
  · simp [htotal, hlocals, after, Locals.start]
  · intro hlastFirst
    simpa [hlocals, after, Locals.start] using hfirst hlastFirst
  · rw [hsuccess, ← herror]
    cases d.error <;> cases ending <;> simp

/-- For every sequence of lines, and wherever reading or decoding raises, the generator yields a
token for each `data: ` line with a choice that was received before, and a last chunk that says
whether something raised. -/
theorem vllm_stream_faithful (hloads : ∀ text : String, Text.strip text.toList = "[DONE]".toList →
    loads text = .malformed) (load : Nat → Int) (upstream : Request → Connection)
    (prompt : String) (maxTokens : Int) (lines : List String) (ending : Option String)
    (h : (upstream (node.streamingRequest prompt maxTokens)).Receives lines ending) :
    ∃ tokens last,
      emitted load (node.executeStreaming loads str clock upstream prompt maxTokens) =
        tokens ++ [last] ∧
      TokenStream (textsOf loads str lines)
        ((∃ line ∈ lines, Raises loads str line = true) ∨ ending.isSome) tokens last := by
  rw [← takenTexts_eq str hloads]
  exact executeStreaming_tokenStream loads str node clock load upstream prompt maxTokens lines
    ending h

end Drained

/-! ## One response -/

def helloText : String := "\x7b\"choices\": [\x7b\"text\": \"Hello\"\x7d]\x7d"

/-- A decoder that knows one document. -/
def loadsHello (text : String) : Loaded :=
  if text = helloText then
    .value (.object [("choices", .array [.object [("text", .string "Hello")]])])
  else .malformed

theorem loadsHello_done (text : String) (h : Text.strip text.toList = "[DONE]".toList) :
    loadsHello text = .malformed := by
  unfold loadsHello
  split
  · rename_i htext
    rw [htext] at h
    exact absurd h (by decide)
  · rfl

/-- A server that sends one token and the end of the stream. -/
def helloServer (_ : Request) : Connection where
  enter := .pure () ()
  status := none
  arrivals := .next (.pure () ("data: " ++ helloText))
    (.next (.pure () "data: [DONE]") (.stops (.pure () ())))
  leave := .pure () ()

theorem vllm_stream_of_hello :
    ∃ tokens last,
      emitted (fun _ => 1) (executeStreaming loadsHello (fun _ => "") ⟨"gpu-1", "", "", "default"⟩
        (fun n => (n : ℚ)) helloServer "Hi" 16) = tokens ++ [last] ∧
      TokenStream (textsOf loadsHello (fun _ => "") ["data: " ++ helloText, "data: [DONE]"])
        ((∃ line ∈ ["data: " ++ helloText, "data: [DONE]"],
          Raises loadsHello (fun _ => "") line = true) ∨ (none : Option String).isSome)
        tokens last :=
  vllm_stream_faithful loadsHello (fun _ => "") ⟨"gpu-1", "", "", "default"⟩ (fun n => (n : ℚ))
    loadsHello_done (fun _ => 1) helloServer "Hi" 16 _ none ⟨rfl, rfl⟩

end GPUvLLMWorkerNode

end StigmergicMesh.WorkerNode
