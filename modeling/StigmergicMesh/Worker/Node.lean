import StigmergicMesh.Library.Generator
import StigmergicMesh.Library.Json
import StigmergicMesh.Library.Text

/-!
# Worker nodes that stream from a server

What the methods of the worker nodes yield and return, and the part of `execute_streaming` that the
two clients share: they read lines from a connection, decode one after the other, and answer an
exception with one last chunk. The HTTP client and the server are input, a coroutine for each
`await`. `active_load` is what a chunk reads when it is yielded, so a chunk is a function of it.

`outputs_executeStreaming` says what a drained generator yields: the chunks that the lines decode
to, and what follows them.
-/

namespace StigmergicMesh.WorkerNode

variable {K : Type*}

/-- The dictionary of a chunk; `error` and `done` can be missing. -/
structure TokenChunk (K : Type*) where
  chunkText : Json
  latencySec : K
  isFirstToken : Bool
  tokenCount : Int
  totalTokens : Int
  success : Bool
  activeLoad : Int
  nodeId : String
  error : Option String
  done : Bool

/-- The dictionary that `execute_inference` returns; `text` and `error` can be missing. -/
structure Result (K : Type*) where
  nodeId : String
  prompt : String
  maxTokens : Int
  tokens : Json
  latencySec : K
  success : Json
  text : Option Json
  error : Option String
  activeLoad : Int

/-- A request to the server. -/
structure Request where
  url : String
  headers : List (String × String)
  json : Json

/-- The result of `json.loads`. -/
inductive Loaded where
  | value (document : Json)
  | malformed
  | raised (message : String)

/-- The lines of a response that are to come: the next one, or the end. -/
inductive Arrivals where
  | stops (c : Coroutine String Unit)
  | next (c : Coroutine String String) (rest : Arrivals)

/-- What `async with` does to open a streaming response and to close it, what `raise_for_status`
raises, and the lines. -/
structure Connection where
  enter : Coroutine String Unit
  status : Option String
  arrivals : Arrivals
  leave : Coroutine String Unit

/-- What `async with` does to open a client and to close it, and its `post`, with what
`raise_for_status` or `json` raises or the document. -/
structure Exchange where
  enter : Coroutine String Unit
  post : Coroutine String (Except String Json)
  leave : Coroutine String Unit

/-- The locals, with how often the clock has been read since `start`. -/
structure Locals where
  ttftSent : Bool
  totalTokens : Int
  readings : Nat

def Locals.start : Locals := ⟨false, 0, 0⟩

/-- What the two clients do differently. -/
structure Client (K : Type*) where
  request : (prompt : String) → (maxTokens : Int) → Request
  onLine : Locals → String → Locals × Except String (Option (Int → TokenChunk K))
  atEnd : Locals → Option (Int → TokenChunk K)

/-- The chunks of a drained generator; `load` is what each of them reads. -/
def emitted {σ α : Type*} (load : Nat → Int) (g : Gen σ (Int → TokenChunk K) String α) :
    List (TokenChunk K) :=
  g.outputs.mapIdx fun i chunk => chunk (load i)

/-- `len(text.split())`. -/
def countWords : Json → Except Json.AccessError Int
  | .string s => .ok (Text.words s.toList).length
  | value => .error (.noAttribute value "split")

section Clock

variable [Sub K] (clock : Nat → K)

/-- `time.monotonic() - start`. -/
def Locals.elapsed (l : Locals) : K := clock (l.readings + 1) - clock 0

/-- The chunk of an exception. -/
def errorChunk (nodeId : String) (l : Locals) (message : String) (load : Int) : TokenChunk K where
  chunkText := .string ""
  latencySec := l.elapsed clock
  isFirstToken := !l.ttftSent
  tokenCount := 0
  totalTokens := l.totalTokens
  success := false
  activeLoad := max 0 (load - 1)
  nodeId := nodeId
  error := some message
  done := true

/-- The result of an exception; `active_load` is set in the `finally`. -/
def errorResult (nodeId prompt : String) (maxTokens : Int) (l : Locals) (message : String)
    (load : Int) : Result K where
  nodeId := nodeId
  prompt := prompt
  maxTokens := maxTokens
  tokens := .number 0
  latencySec := l.elapsed clock
  success := .bool false
  text := none
  error := some message
  activeLoad := max 0 load

end Clock

/-- The `try` of `execute_inference` with its handler; `resultOf` is what a client makes of the
document. -/
def inference [Sub K] (clock : Nat → K) (nodeId : String) (exchange : Exchange) (prompt : String)
    (maxTokens : Int) (resultOf : Locals → Json → Except String (Int → Result K)) :
    Gen Locals (Int → TokenChunk K) String (Int → Result K) :=
  ((Gen.await .start exchange.enter).bind fun _ l =>
    (((Gen.await l exchange.post).bind fun response l =>
      match response with
      | .error message => .raise l (.exception message)
      | .ok data => .pure l data).tryFinally fun l => .await l exchange.leave).bind fun data l =>
        match resultOf l data with
        | .error message => .raise { l with readings := l.readings + 1 } (.exception message)
        | .ok result => .pure l result).tryExcept
          fun message l => .pure l (errorResult clock nodeId prompt maxTokens l message)

/-! ## The generator -/

namespace Client

variable (client : Client K)

/-- The `async for` over the lines. -/
def readLines : Arrivals → Locals → Gen Locals (Int → TokenChunk K) String Unit
  | .stops c, l => .await l c
  | .next c rest, l =>
    (Gen.await l c).bind fun line l =>
      match client.onLine l line with
      | (l, .error message) => .raise l (.exception message)
      | (l, .ok none) => readLines rest l
      | (l, .ok (some chunk)) => (Gen.yield l chunk).bind fun _ l => readLines rest l

/-- What `async with` encloses. -/
def respond (connection : Connection) (l : Locals) : Gen Locals (Int → TokenChunk K) String Unit :=
  match connection.status with
  | some message => .raise l (.exception message)
  | none =>
    (client.readLines connection.arrivals l).bind fun _ l =>
      match client.atEnd l with
      | some chunk => .yield { l with readings := l.readings + 1 } chunk
      | none => .pure l ()

/-- The `try` of `execute_streaming` with its handler. -/
def executeStreaming [Sub K] (clock : Nat → K) (nodeId : String) (upstream : Request → Connection)
    (prompt : String) (maxTokens : Int) : Gen Locals (Int → TokenChunk K) String Unit :=
  let connection := upstream (client.request prompt maxTokens)
  ((Gen.await .start connection.enter).bind fun _ l =>
    (client.respond connection l).tryFinally fun l => .await l connection.leave).tryExcept
      fun message l => .yield l (errorChunk clock nodeId l message)

end Client

/-! ## What a drained generator yields -/

/-- The lines that are received, and how the reading ends. -/
def Arrivals.reads : Arrivals → List String × Exit String Unit
  | .stops c => ([], c.exit.2)
  | .next c rest =>
    match c.exit.2 with
    | .returned line => (line :: rest.reads.1, rest.reads.2)
    | .raised x => ([], .raised x)

def Connection.reads (connection : Connection) : List String × Exit String Unit :=
  match connection.enter.exit.2 with
  | .raised x => ([], .raised x)
  | .returned () =>
    match connection.status with
    | some message => ([], .raised (.exception message))
    | none => connection.arrivals.reads

/-- The exit of a statement that raises an `Exception` or nothing. -/
def exitOf : Option String → Exit String Unit
  | some message => .raised (.exception message)
  | none => .returned ()

/-- A connection that receives the lines, raises `ending` or nothing while it is read, and closes
without an error. -/
structure Connection.Receives (connection : Connection) (lines : List String)
    (ending : Option String) : Prop where
  reads : connection.reads = (lines, exitOf ending)
  leaves : connection.leave.exit.2 = .returned ()

/-- What lines decode to, up to the first that raises. -/
structure Decoded (K : Type*) where
  chunks : List (Int → TokenChunk K)
  locals : Locals
  error : Option String

/-- A token chunk for every text, numbered from one on, and a last chunk that closes the stream and
says whether it failed. -/
structure TokenStream (texts : List Json) (failed : Prop) (tokens : List (TokenChunk K))
    (last : TokenChunk K) : Prop where
  texts : tokens.map (·.chunkText) = texts
  numbered : ∀ (k : Nat) c, tokens[k]? = some c → c.totalTokens = (k : Int) + 1
  first : ∀ (k : Nat) c, (tokens ++ [last])[k]? = some c → c.isFirstToken = true → k = 0
  unfinished : ∀ c ∈ tokens, c.done = false
  done : last.done = true
  total : last.totalTokens = tokens.length
  success : last.success = true ↔ ¬failed

namespace Client

variable (client : Client K)

def decode : Locals → List String → Decoded K
  | l, [] => ⟨[], l, none⟩
  | l, line :: lines =>
    match client.onLine l line with
    | (l, .error message) => ⟨[], l, some message⟩
    | (l, .ok none) => decode l lines
    | (l, .ok (some chunk)) =>
      let later := decode l lines
      { later with chunks := chunk :: later.chunks }

/-- The loop yields what the lines decode to, and ends with the line that raises or as the reading
does. -/
theorem readLines_spec (arrivals : Arrivals) (l : Locals) :
    let d := client.decode l arrivals.reads.1
    (client.readLines arrivals l).outputs = d.chunks ∧
      (client.readLines arrivals l).exit =
        (d.locals, match d.error with
          | some message => .raised (.exception message)
          | none => arrivals.reads.2) := by
  induction arrivals generalizing l with
  | stops c => simp [readLines, Arrivals.reads, decode]
  | next c rest ih =>
    simp only [readLines, Arrivals.reads, Gen.outputs_bind, Gen.exit_bind, Gen.exit_await,
      Gen.outputs_await]
    rcases hc : c.exit.2 with line | x
    · rcases hline : client.onLine l line with ⟨l', message | _ | chunk⟩
      · simp [decode, hline]
      · simpa [decode, hline] using ih l'
      · simpa [decode, hline, Gen.outputs_bind, Gen.exit_bind] using ih l'
    · simp [decode]

/-- What the opened connection makes the client yield, and how that ends. -/
theorem respond_spec {connection : Connection} {lines : List String} {ending : Option String}
    (henter : connection.enter.exit.2 = .returned ())
    (hreads : connection.reads = (lines, exitOf ending)) (l : Locals) :
    let d := client.decode l lines
    (∀ message, d.error.or ending = some message →
      (client.respond connection l).outputs = d.chunks ∧
        (client.respond connection l).exit = (d.locals, .raised (.exception message))) ∧
    (d.error.or ending = none →
      (client.respond connection l).outputs = d.chunks ++ (client.atEnd d.locals).toList ∧
        (client.respond connection l).exit.2 = .returned ()) := by
  intro d
  simp only [Connection.reads, henter] at hreads
  cases hstatus : connection.status with
  | none =>
    simp only [hstatus] at hreads
    obtain ⟨houtputs, hexit⟩ := client.readLines_spec connection.arrivals l
    rw [hreads] at houtputs hexit
    have hfailure : (client.readLines connection.arrivals l).exit =
        (d.locals, exitOf (d.error.or ending)) := by
      rw [hexit]
      cases herror : d.error <;> simp_all [exitOf, d]
    simp only [respond, hstatus, Gen.outputs_bind, Gen.exit_bind, houtputs, hfailure]
    constructor
    · intro message h
      simp [h, exitOf, d]
    · intro h
      cases hend : client.atEnd d.locals <;> simp [h, exitOf, hend, d]
  | some message =>
    simp only [hstatus] at hreads
    obtain ⟨rfl, hending⟩ := Prod.mk.inj hreads
    obtain rfl : ending = some message := by
      cases ending <;> simp_all [exitOf]
    simp [respond, hstatus, d, decode]

/-- What follows the chunks of the lines: the chunk of an exception, or what the client adds. -/
def closing [Sub K] (clock : Nat → K) (nodeId : String) (l : Locals) :
    Option String → List (Int → TokenChunk K)
  | some message => [errorChunk clock nodeId l message]
  | none => (client.atEnd l).toList

/-- What a drained generator yields. -/
theorem outputs_executeStreaming [Sub K] (clock : Nat → K) (nodeId : String)
    (upstream : Request → Connection) (prompt : String) (maxTokens : Int) {lines : List String}
    {ending : Option String}
    (h : (upstream (client.request prompt maxTokens)).Receives lines ending) :
    let d := client.decode .start lines
    (client.executeStreaming clock nodeId upstream prompt maxTokens).outputs =
      d.chunks ++ client.closing clock nodeId d.locals (d.error.or ending) := by
  obtain ⟨hreads, hleaves⟩ := h
  intro d
  set connection := upstream (client.request prompt maxTokens) with hconnection
  simp only [executeStreaming, ← hconnection, Gen.outputs_tryExcept, Gen.outputs_bind,
    Gen.exit_bind, Gen.exit_await, Gen.outputs_await, Gen.outputs_tryFinally, Gen.exit_tryFinally,
    hleaves]
  rcases henter : connection.enter.exit.2 with u | x
  · obtain ⟨hraised, hreturned⟩ := client.respond_spec henter hreads .start
    rcases hfailure : d.error.or ending with _ | message
    · obtain ⟨houtputs, hexit⟩ := hreturned hfailure
      simp [houtputs, hexit, d, closing]
    · obtain ⟨houtputs, hexit⟩ := hraised message hfailure
      simp [houtputs, hexit, d, closing]
  · simp only [Connection.reads, henter] at hreads
    obtain ⟨rfl, hending⟩ := Prod.mk.inj hreads
    obtain ⟨message, rfl, rfl⟩ : ∃ message, ending = some message ∧
        x = .exception message := by
      cases ending <;> simp_all [exitOf]
    simp [d, decode, closing]

end Client

end StigmergicMesh.WorkerNode
