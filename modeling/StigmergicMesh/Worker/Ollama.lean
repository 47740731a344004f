import StigmergicMesh.Worker.Node
import Mathlib.Algebra.Ring.Int.Defs

/-!
# The Ollama client

`OllamaWorkerNode.execute_streaming` yields a chunk for every document it reads. The chunk of a
document that is marked as the last one has no text, whatever the document has, and the loop goes on
after it; so whether a stream is lossless is up to the texts that the server marks and to what it
sends after them.
-/

namespace StigmergicMesh.WorkerNode

variable {K : Type*}

/-- The attributes that the methods read. -/
structure OllamaWorkerNode where
  nodeId : String
  baseUrl : String
  model : String

namespace OllamaWorkerNode

variable (loads : String → Loaded) (str : Json.AccessError → String) (node : OllamaWorkerNode)

def requestBody (stream : Bool) (prompt : String) (maxTokens : Int) : Json :=
  .object [("model", .string node.model), ("prompt", .string prompt), ("stream", .bool stream),
    ("options", .object [("num_predict", .number maxTokens)])]

/-- What `execute_inference` posts. -/
def inferenceRequest (prompt : String) (maxTokens : Int) : Request where
  url := node.baseUrl ++ "/api/generate"
  headers := []
  json := node.requestBody false prompt maxTokens

/-- What `execute_streaming` posts. -/
def streamingRequest (prompt : String) (maxTokens : Int) : Request where
  url := node.baseUrl ++ "/api/generate"
  headers := []
  json := node.requestBody true prompt maxTokens

/-- What a text adds to `total_tokens`; one that counts as false is not split. -/
def tokensOf (text : Json) : Except Json.AccessError Int :=
  if text.truthy then countWords text else .ok 0

section Generator

variable [Sub K] (clock : Nat → K)

/-- The chunk of a document. `l` is from before the document. -/
def documentChunk (l : Locals) (text : Json) (words : Int) (done : Bool) (load : Int) :
    TokenChunk K where
  chunkText := if done then .string "" else text
  latencySec := l.elapsed clock
  isFirstToken := !l.ttftSent
  tokenCount := if done then 0 else words
  totalTokens := l.totalTokens + words
  success := true
  activeLoad := max 0 (load - 1)
  nodeId := node.nodeId
  error := none
  done := done

/-- The body of the loop. -/
def onLine (l : Locals) (line : String) : Locals × Except String (Option (Int → TokenChunk K)) :=
  if line = "" then (l, .ok none)
  else
    match loads line with
    | .malformed => (l, .ok none)
    | .raised message => (l, .error message)
    | .value data =>
      match data.get "response" (.string ""), data.get "done" (.bool false) with
      | .ok text, .ok done =>
        match tokensOf text with
        | .error e => (⟨true, l.totalTokens, l.readings + 1⟩, .error (str e))
        | .ok words =>
          (⟨true, l.totalTokens + words, l.readings + 1⟩,
            .ok (some (node.documentChunk clock l text words done.truthy)))
      | .error e, _ => (l, .error (str e))
      | _, .error e => (l, .error (str e))

def client : Client K where
  request := node.streamingRequest
  onLine := node.onLine loads str clock
  atEnd := fun _ => none

/-- What `execute_inference` makes of a document; the clock has been read before. -/
def resultOf (prompt : String) (maxTokens : Int) (l : Locals) (data : Json) :
    Except String (Int → Result K) :=
  match data.get "response" (.string ""), data.get "done" (.bool true) with
  | .ok text, .ok done =>
    match countWords text with
    | .error e => .error (str e)
    | .ok words =>
      match data.get "eval_count" (.number words) with
      | .error e => .error (str e)
      | .ok tokens => .ok fun load =>
        { nodeId := node.nodeId
          prompt := prompt
          maxTokens := maxTokens
          tokens := tokens
          latencySec := l.elapsed clock
          success := done
          text := some text
          error := none
          activeLoad := max 0 load }
  | .error e, _ => .error (str e)
  | _, .error e => .error (str e)

/-- `execute_inference`. -/
def executeInference (exchange : Request → Exchange) (prompt : String) (maxTokens : Int) :
    Gen Locals (Int → TokenChunk K) String (Int → Result K) :=
  inference clock node.nodeId (exchange (node.inferenceRequest prompt maxTokens)) prompt maxTokens
    (node.resultOf str clock prompt maxTokens)

/-- `execute_streaming`. -/
def executeStreaming (upstream : Request → Connection) (prompt : String) (maxTokens : Int) :
    Gen Locals (Int → TokenChunk K) String Unit :=
  (node.client loads str clock).executeStreaming clock node.nodeId upstream prompt maxTokens

end Generator

/-! ## What documents decode to -/

/-- The line is a JSON object with this response text and this mark. -/
structure Sends (line : String) (text : String) (done : Bool) : Prop where
  nonempty : line ≠ ""
  document : ∃ members, loads line = .value (.object members) ∧
    ((Json.object members).member "response").getD (.string "") = .string text ∧
    ((Json.object members).member "done").getD (.bool false) = .bool done

/-- The lines are the documents with these texts and marks. -/
def SendsAll (lines : List String) (documents : List (String × Bool)) : Prop :=
  List.Forall₂ (fun line document => Sends loads line document.1 document.2) lines documents

/-- The text of a chunk. -/
def textOf (c : TokenChunk K) : String :=
  match c.chunkText with
  | .string s => s
  | _ => ""

/-- The chunks carry the texts, count as they go, and one of them, the last, is marked done. -/
structure Lossless (texts : List String) (emitted : List (TokenChunk K)) : Prop where
  texts : String.join (emitted.map textOf) = String.join texts
  running : ∀ k c, emitted[k]? = some c →
    c.totalTokens = ((emitted.take (k + 1)).map (·.tokenCount)).sum
  done : ∃ chunks last, emitted = chunks ++ [last] ∧ last.done = true ∧
    ∀ c ∈ chunks, c.done = false

/-- The server marks the last document and no other, and this has no text; or reading raises, and
no document before was marked. -/
def EndsOnce (documents : List (String × Bool)) : Option String → Prop
  | none => ∃ earlier, documents = earlier ++ [("", true)] ∧ ∀ d ∈ earlier, d.2 = false
  | some _ => ∀ d ∈ documents, d.2 = false

section Drained

variable [Sub K] (clock : Nat → K)

/-- The number of tokens of a text. -/
def wordsOf (text : String) : Int := (Text.words text.toList).length

theorem onLine_eq {line text : String} {done : Bool} (h : Sends loads line text done)
    (l : Locals) :
    node.onLine loads str clock l line =
      (⟨true, l.totalTokens + wordsOf text, l.readings + 1⟩,
        .ok (some (node.documentChunk clock l (.string text) (wordsOf text) done))) := by
  obtain ⟨hne, members, hloads, htext, hdone⟩ := h
  have htokens : tokensOf (.string text) = .ok (wordsOf text) := by
    by_cases hempty : text = ""
    · subst hempty
      rfl
    · simp [tokensOf, Json.truthy, hempty, countWords, wordsOf]
  simp [onLine, hne, hloads, Json.get, htext, hdone, htokens, Json.truthy]

/-- The chunks of documents. -/
def chunksOf : Locals → List (String × Bool) → List (Int → TokenChunk K)
  | _, [] => []
  | l, d :: documents =>
    node.documentChunk clock l (.string d.1) (wordsOf d.1) d.2 ::
      chunksOf ⟨true, l.totalTokens + wordsOf d.1, l.readings + 1⟩ documents

/-- What the documents decode to. -/
theorem decode_eq {lines : List String} {documents : List (String × Bool)}
    (h : SendsAll loads lines documents) (l : Locals) :
    let d := (node.client loads str clock).decode l lines
    d.chunks = chunksOf node clock l documents ∧ d.error = none ∧
      d.locals.totalTokens = l.totalTokens + (documents.map fun d => wordsOf d.1).sum := by
  induction h generalizing l with
  | nil => simp [Client.decode, chunksOf]
  | @cons line d lines documents hd _ ih =>
    obtain ⟨hchunks, herror, htotal⟩ := ih ⟨true, l.totalTokens + wordsOf d.1, l.readings + 1⟩
    simp only [client] at hchunks herror htotal
    simp only [Client.decode, client, onLine_eq loads str node clock hd l, chunksOf]
    refine ⟨congrArg _ hchunks, herror, ?_⟩
    rw [htotal]
    simp only [List.map_cons, List.sum_cons]
    omega

/-! ## What is lost -/

/-- What a chunk says that is the same wherever its document stands. -/
theorem map_chunksOf {β : Type*} (f : TokenChunk K → β) (g : String × Bool → β)
    (h : ∀ l d load, f (node.documentChunk clock l (.string d.1) (wordsOf d.1) d.2 load) = g d)
    (load : Nat → Int) (l : Locals) (documents : List (String × Bool)) :
    ((chunksOf node clock l documents).mapIdx fun i c => c (load i)).map f = documents.map g := by
  induction documents generalizing l load with
  | nil => rfl
  | cons d documents ih =>
    simp only [chunksOf, List.mapIdx_cons, List.map_cons, h]
    exact congrArg _ (ih (fun i => load (i + 1)) _)

/-- The total of a chunk counts the marked documents too. -/
theorem totalTokens_chunksOf (load : Nat → Int) (l : Locals) (documents : List (String × Bool))
    {k : Nat} {c : TokenChunk K}
    (h : ((chunksOf node clock l documents).mapIdx fun i c => c (load i))[k]? = some c) :
    c.totalTokens = l.totalTokens + ((documents.take (k + 1)).map fun d => wordsOf d.1).sum := by
  induction documents generalizing l load k with
  | nil => simp [chunksOf] at h
  | cons d documents ih =>
    simp only [chunksOf, List.mapIdx_cons] at h
    cases k with
    | zero =>
      obtain rfl := Option.some.inj h
      simp [documentChunk]
    | succ k =>
      rw [List.getElem?_cons_succ] at h
      rw [ih (fun i => load (i + 1)) _ h, List.take_succ_cons, List.map_cons, List.sum_cons]
      simp only
      omega

omit [Sub K] in
/-- Leaving the marked texts out makes nothing longer. -/
theorem length_join_unmarked_le (documents : List (String × Bool)) :
    (String.join (documents.map fun d => if d.2 then "" else d.1)).length ≤
      (String.join (documents.map Prod.fst)).length := by
  induction documents with
  | nil => exact le_rfl
  | cons d documents ih =>
    rw [List.map_cons, List.map_cons, String.join_cons, String.join_cons, String.length_append,
      String.length_append]
    refine Nat.add_le_add ?_ ih
    split
    · exact Nat.zero_le _
    · exact le_rfl

omit [Sub K] in
/-- A concatenation that leaves the marked texts out is the whole one if and only if they are
empty. -/
theorem join_unmarked_iff (documents : List (String × Bool)) :
    String.join (documents.map fun d => if d.2 then "" else d.1) =
      String.join (documents.map Prod.fst) ↔ ∀ d ∈ documents, d.2 = true → d.1 = "" := by
  induction documents with
  | nil => simp
  | cons d documents ih =>
    rw [List.map_cons, List.map_cons, String.join_cons, String.join_cons, List.forall_mem_cons,
      ← ih]
    cases hd : d.2 with
    | false => simp
    | true =>
      constructor
      · intro heq
        -- What follows is no longer without the marked texts, so the text is empty.
        have hlength := congrArg String.length heq
        have hrest := length_join_unmarked_le documents
        simp only [if_true, String.length_append, String.length_empty] at hlength
        have hempty : d.1 = "" := String.length_eq_zero_iff.mp (by omega)
        simpa [hempty] using heq
      · rintro ⟨hempty, hrest⟩
        simp [hempty rfl, hrest]

/-- What a drained generator emits. -/
theorem emitted_eq (load : Nat → Int) (upstream : Request → Connection) (prompt : String)
    (maxTokens : Int) {lines : List String} {documents : List (String × Bool)}
    {ending : Option String} (hlines : SendsAll loads lines documents)
    (h : (upstream (node.streamingRequest prompt maxTokens)).Receives lines ending) :
    ∃ l : Locals, l.totalTokens = (documents.map fun d => wordsOf d.1).sum ∧
      emitted load (node.executeStreaming loads str clock upstream prompt maxTokens) =
        ((chunksOf node clock .start documents).mapIdx fun i c => c (load i)) ++
          (ending.map fun message =>
            errorChunk clock node.nodeId l message (load documents.length)).toList := by
  obtain ⟨hchunks, herror, htotal⟩ := decode_eq loads str node clock hlines .start
  have houtputs := (node.client loads str clock).outputs_executeStreaming clock node.nodeId upstream
    prompt maxTokens h
  dsimp only at houtputs
  rw [hchunks, herror, Option.none_or] at houtputs
  have hlength : (chunksOf node clock .start documents).length = documents.length := by
    simpa using congrArg List.length
      (map_chunksOf node clock (fun _ => ()) (fun _ => ()) (fun _ _ _ => rfl) load .start documents)
  refine ⟨_, htotal.trans (Int.zero_add _), ?_⟩
  rw [emitted, executeStreaming, houtputs, List.mapIdx_append]
  cases ending with
  | none => rfl
  | some message => simp [Client.closing, hlength]

/-- The sum of the counts of the first documents, where the marked ones have no text. -/
theorem sum_tokenCount_chunksOf (load : Nat → Int) (l : Locals)
    {documents : List (String × Bool)} (hempty : ∀ d ∈ documents, d.2 = true → d.1 = "") (k : Nat) :
    ((((chunksOf node clock l documents).mapIdx fun i c => c (load i)).take k).map
      (·.tokenCount)).sum = ((documents.take k).map fun d => wordsOf d.1).sum := by
  rw [List.map_take, map_chunksOf node clock (·.tokenCount)
    (fun d => if d.2 then 0 else wordsOf d.1) (fun _ _ _ => rfl), ← List.map_take]
  refine congrArg List.sum (List.map_congr_left fun d hd => ?_)
  cases hmark : d.2 with
  | false => rfl
  | true =>
    rw [hempty d (List.mem_of_mem_take hd) hmark]
    rfl

omit [Sub K] in
/-- A stream of chunks is closed once, by its last chunk. -/
theorem closed_once_iff (chunks : List (TokenChunk K)) :
    (∃ earlier last, chunks = earlier ++ [last] ∧ last.done = true ∧
      ∀ c ∈ earlier, c.done = false) ↔
    ∃ marks, chunks.map (·.done) = marks ++ [true] ∧ ∀ b ∈ marks, b = false := by
  constructor
  · rintro ⟨earlier, last, rfl, hlast, hearlier⟩
    exact ⟨earlier.map (·.done), by simp [hlast], by simpa using hearlier⟩
  · rintro ⟨marks, hmarks, hfalse⟩
    obtain ⟨earlier, rest, rfl, rfl, hrest⟩ := List.map_eq_append_iff.mp hmarks
    obtain ⟨last, hlast, rfl⟩ : ∃ last : TokenChunk K, last.done = true ∧ rest = [last] := by
      simpa [List.map_eq_singleton_iff, and_comm] using hrest
    exact ⟨earlier, last, rfl, hlast, by simpa using hfalse⟩

omit [Sub K] in
/-- What is asked of the server, in terms of the texts and of the marks of the chunks. -/
theorem endsOnce_iff (documents : List (String × Bool)) (ending : Option String) :
    EndsOnce documents ending ↔ (∀ d ∈ documents, d.2 = true → d.1 = "") ∧
      ∃ marks, documents.map Prod.snd ++ (ending.map fun _ => true).toList = marks ++ [true] ∧
        ∀ b ∈ marks, b = false := by
  cases ending with
  | none =>
    simp only [EndsOnce, Option.map_none, Option.toList_none, List.append_nil]
    constructor
    · rintro ⟨earlier, rfl, hearlier⟩
      refine ⟨?_, earlier.map Prod.snd, by simp, by simpa using hearlier⟩
      intro d hd hmark
      rcases List.mem_append.mp hd with hd | hd
      · rw [hearlier d hd] at hmark
        cases hmark
      · rw [List.mem_singleton.mp hd]
    · rintro ⟨hempty, marks, hmarks, hfalse⟩
      obtain ⟨earlier, rest, rfl, rfl, hrest⟩ := List.map_eq_append_iff.mp hmarks
      obtain ⟨text, rfl⟩ : ∃ text, rest = [(text, true)] := by
        simpa [List.map_eq_singleton_iff] using hrest
      obtain rfl : text = "" := hempty (text, true) (by simp) rfl
      exact ⟨earlier, rfl, by simpa using hfalse⟩
  | some message =>
    simp only [EndsOnce, Option.map_some, Option.toList_some, List.append_left_inj]
    constructor
    · intro hunmarked
      refine ⟨fun d hd hmark => ?_, _, rfl, by simpa using hunmarked⟩
      rw [hunmarked d hd] at hmark
      cases hmark
    · rintro ⟨-, marks, rfl, hfalse⟩
      simpa using hfalse

/-- Where the marked documents have no text every chunk has the running sum of the counts, also the
chunk of an exception. -/
theorem running_emitted (load : Nat → Int) {documents : List (String × Bool)}
    (hempty : ∀ d ∈ documents, d.2 = true → d.1 = "") {error : Option (TokenChunk K)}
    (herror : ∀ c ∈ error, c.tokenCount = 0 ∧
      c.totalTokens = (documents.map fun d => wordsOf d.1).sum) (k : Nat) (c : TokenChunk K)
    (hk : (((chunksOf node clock .start documents).mapIdx fun i c => c (load i)) ++
      error.toList)[k]? = some c) :
    c.totalTokens = (((((chunksOf node clock .start documents).mapIdx fun i c => c (load i)) ++
      error.toList).take (k + 1)).map (·.tokenCount)).sum := by
  have hsum := sum_tokenCount_chunksOf node clock load .start hempty
  have htotal := totalTokens_chunksOf node clock load .start documents (k := k) (c := c)
  have hlength := congrArg List.length
    (map_chunksOf node clock (fun _ => ()) (fun _ => ()) (fun _ _ _ => rfl) load .start documents)
  rw [List.length_map, List.length_map] at hlength
  generalize (chunksOf node clock .start documents).mapIdx (fun i c => c (load i)) = chunks
    at hk hsum htotal hlength ⊢
  rw [List.getElem?_append] at hk
  split at hk
  · rename_i hlt
    rw [List.take_append_of_le_length hlt, hsum, htotal hk]
    exact Int.zero_add _
  · obtain ⟨e, rfl, rfl⟩ : ∃ e, error = some e ∧ c = e := by
      cases error with
      | none => simp at hk
      | some e => exact ⟨e, rfl, by grind⟩
    obtain ⟨hcount, htotal⟩ := herror c rfl
    have hwhole := hsum documents.length
    rw [← hlength, List.take_length, hlength, List.take_length] at hwhole
    rw [List.take_of_length_le (by simp; omega)]
    simp [hwhole, hcount, htotal]

/-- Over every sequence of documents, and wherever reading raises, a drained generator emits all of
the texts, counts them as it goes and closes the stream once exactly if the server marks the last
document only, which has no text, or reading raises before a document is marked. -/
theorem ollama_stream_lossless_iff (load : Nat → Int) (upstream : Request → Connection)
    (prompt : String) (maxTokens : Int) (lines : List String) (documents : List (String × Bool))
    (ending : Option String) (hlines : SendsAll loads lines documents)
    (h : (upstream (node.streamingRequest prompt maxTokens)).Receives lines ending) :
    Lossless (documents.map Prod.fst)
      (emitted load (node.executeStreaming loads str clock upstream prompt maxTokens)) ↔
        EndsOnce documents ending := by
  obtain ⟨l, htotal, hemitted⟩ := emitted_eq loads str node clock load upstream prompt maxTokens
    hlines h
  set chunks := (chunksOf node clock .start documents).mapIdx fun i c => c (load i) with hchunks
  have hmarks : chunks.map (·.done) = documents.map Prod.snd :=
    map_chunksOf node clock (·.done) Prod.snd (fun _ _ _ => rfl) load .start documents
  have hjoin : chunks.map textOf = documents.map fun d => if d.2 then "" else d.1 := by
    refine map_chunksOf node clock textOf _ (fun l d load => ?_) load .start documents
    cases d.2 <;> simp [textOf, documentChunk]
  -- The chunk of an exception has no text, is marked, and counts nothing.
  have htexts : String.join ((emitted load (node.executeStreaming loads str clock upstream prompt
      maxTokens)).map textOf) = String.join (documents.map Prod.fst) ↔
        ∀ d ∈ documents, d.2 = true → d.1 = "" := by
    rw [← join_unmarked_iff, hemitted, List.map_append, String.join_append, hjoin]
    cases ending <;> simp [errorChunk, textOf]
  have hclosed := closed_once_iff (emitted load (node.executeStreaming loads str clock upstream
    prompt maxTokens))
  have hall : (emitted load (node.executeStreaming loads str clock upstream prompt
      maxTokens)).map (·.done) = documents.map Prod.snd ++ (ending.map fun _ => true).toList := by
    rw [hemitted, List.map_append, hmarks]
    cases ending <;> rfl
  rw [hall] at hclosed
  rw [endsOnce_iff]
  constructor
  · rintro ⟨htext, -, hdone⟩
    exact ⟨htexts.mp htext, hclosed.mp hdone⟩
  · rintro ⟨hempty, hdone⟩
    refine ⟨htexts.mpr hempty, ?_, hclosed.mpr hdone⟩
    rw [hemitted]
    refine running_emitted node clock load hempty fun c hc => ?_
    obtain ⟨message, -, rfl⟩ := Option.map_eq_some_iff.mp hc
    exact ⟨rfl, htotal⟩

end Drained

/-! ## Two responses -/

def helloText : String := "\x7b\"response\": \"Hello\", \"done\": false\x7d"

def worldText : String := "\x7b\"response\": \" world\", \"done\": true\x7d"

def doneText : String := "\x7b\"response\": \"\", \"done\": true\x7d"

/-- A decoder that knows three documents. -/
def loadsHello (text : String) : Loaded :=
  if text = helloText then
    .value (.object [("response", .string "Hello"), ("done", .bool false)])
  else if text = worldText then
    .value (.object [("response", .string " world"), ("done", .bool true)])
  else if text = doneText then .value (.object [("response", .string ""), ("done", .bool true)])
  else .malformed

/-- A server that sends two lines and closes the connection. -/
def twoLines (first second : String) (_ : Request) : Connection where
  enter := .pure () ()
  status := none
  arrivals := .next (.pure () first) (.next (.pure () second) (.stops (.pure () ())))
  leave := .pure () ()

theorem sends_hello : Sends loadsHello helloText "Hello" false :=
  ⟨by decide, _, rfl, rfl, rfl⟩

/-- A server that ends with an empty marked document loses nothing. -/
theorem ollama_stream_of_hello :
    Lossless (["Hello", ""]) (emitted (fun _ => 1) (executeStreaming loadsHello (fun _ => "")
      ⟨"ollama-1", "", "phi3"⟩ (fun n => (n : ℚ)) (twoLines helloText doneText) "Hi" 16)) :=
  (ollama_stream_lossless_iff loadsHello (fun _ => "") ⟨"ollama-1", "", "phi3"⟩ (fun n => (n : ℚ))
    (fun _ => 1) (twoLines helloText doneText) "Hi" 16 [helloText, doneText]
    [("Hello", false), ("", true)] none
    (.cons sends_hello (.cons ⟨by decide, _, rfl, rfl, rfl⟩ .nil)) ⟨rfl, rfl⟩).mpr
    ⟨[("Hello", false)], rfl, by simp⟩

/-- A server that marks the document with the last word gets this word dropped. -/
theorem ollama_stream_drops_marked_text :
    SendsAll loadsHello [helloText, worldText] [("Hello", false), (" world", true)] ∧
      (twoLines helloText worldText (streamingRequest ⟨"ollama-1", "", "phi3"⟩ "Hi" 16)).Receives
        [helloText, worldText] none ∧
      ¬Lossless ["Hello", " world"] (emitted (fun _ => 1) (executeStreaming loadsHello
        (fun _ => "") ⟨"ollama-1", "", "phi3"⟩ (fun n => (n : ℚ)) (twoLines helloText worldText)
        "Hi" 16)) := by
  refine ⟨.cons sends_hello (.cons ⟨by decide, _, rfl, rfl, rfl⟩ .nil), ⟨rfl, rfl⟩, ?_⟩
  intro h
  exact absurd h.texts (by decide +kernel)

end OllamaWorkerNode

end StigmergicMesh.WorkerNode
