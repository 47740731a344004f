import StigmergicMesh.Library.Tasks
import StigmergicMesh.Redis.Startup

/-!
# The methods of the Redis field between their awaits

Any number of client objects over one store, and any number of calls on them in progress. A call
suspends in the lock of `_ensure_initialized` and in every round trip: it sends a request, the
server serves it, the reply is delivered, and each of these can be overtaken by other calls. What
a method reads of its client after a suspension it reads as it is then.

`run_alone` says that a call with nothing in between is the method of `Redis.Field`.
-/

namespace StigmergicMesh.Redis

variable {K : Type*} [Field K] [LinearOrder K]

/-- The round trips of the field: a pipeline of `HSET`s, `SCRIPT LOAD`, a pipeline of `HGETALL`s,
`EVALSHA`, `DEL`. -/
inductive Request (K : Type*) where
  | hset (mappings : List (String × NodeHash K))
  | scriptLoad
  | hgetall (nodeIds : List String)
  | evalsha (nodeId : String) (args : ScriptArgs K)
  | delete (nodeId : String)

/-- What the methods use of a reply: the hashes read. -/
inductive Reply (K : Type*) where
  | done
  | hashes (raws : List (NodeHash K))

/-- Pipelines are transactions, so the server serves every request in one step. -/
def Request.serve [Transcendental K] (s : Store K) : Request K → Store K × Reply K
  | .hset mappings => (s.hsetAll mappings, .done)
  | .scriptLoad => (s, .done)
  | .hgetall nodeIds => (s, .hashes (RedisField.readAll nodeIds s))
  | .evalsha nodeId args =>
    (Function.update s (nodeKey nodeId)
      (some (depositScript args (s.hgetall (nodeKey nodeId)))), .done)
  | .delete nodeId => (s.delete (nodeKey nodeId), .done)

/-- What a method does with the reply it waits for, with the locals it keeps. -/
inductive Wait (K : Type*) where
  | baselines (c : Call K)
  | script (c : Call K)
  | stateVector
  | stateDict
  | deposited
  | evaporation (factor now : K)
  | evaporated (factor now : K)
  | added
  | removed (nodeId : String)
  | hydrated (updated : Nat)

/-- What a method returns. The state vector comes with `node_ids` as they are at the return, which
its rows stand for. -/
inductive Result (K : Type*) where
  | none
  | stateVector (nodeIds : List String) (rows : List (Row K))
  | stateDict (state : Dict String (Row K))
  | updated (count : Nat)

inductive Point (K : Type*) where
  | start (c : Call K)
  | lock (c : Call K)
  | sent (r : Request K) (w : Wait K)
  | replied (r : Request K) (a : Reply K) (w : Wait K)
  | returned (result : Result K)
  | raised (e : FieldError)

/-- A client after a step of one of its calls, `locked` for its `_init_lock`, and where the call
is. -/
structure Turn (K : Type*) where
  field : RedisField K
  locked : Bool
  point : Point K

namespace RedisField

/-! ## Between the awaits -/

/-- A method after `_ensure_initialized`, up to its first request. -/
def body (now : K) (f : RedisField K) : Call K → RedisField K × Point K
  | .getStateVector => (f, .sent (.hgetall f.nodeIds) .stateVector)
  | .exportStateDict => (f, .sent (.hgetall f.nodeIds) .stateDict)
  | .depositTrace n t =>
    match f.indexOf n with
    | .error e => (f, .raised e)
    | .ok _ => (f, .sent (.evalsha n (f.scriptArgs now t)) .deposited)
  | .applyEvaporation rate => (f, .sent (.hgetall f.nodeIds) (.evaporation (1 - rate) now))
  | .addNode n _ =>
    match f.nodeIndex.get? n with
    | some _ => (f, .returned .none)
    | none =>
      ({ f with
          nodeIndex := f.nodeIndex.set n f.nodeIds.length
          nodeIds := f.nodeIds ++ [n] },
        .sent (.hset [(n, NodeHash.ofRow Row.defaultState now)]) .added)
  | .removeNode n => (f, .sent (.delete n) (.removed n))
  | .hydrateFromSnapshot snapshot =>
    match snapshot.nodeMetrics with
    | .error e => (f, .raised e)
    | .ok nodeMetrics =>
      match hydrateMappings Except.ok f nodeMetrics.entries with
      | .error e => (f, .raised e)
      | .ok [] => (f, .returned (.updated 0))
      | .ok mappings =>
        (f, .sent (.hset (mappings.map (fun m =>
          (m.1, ⟨m.2.V, m.2.L, m.2.S, m.2.C, some now⟩)))) (.hydrated mappings.length))

/-- The pipeline of `_ensure_initialized`. -/
def baselines (f : RedisField K) (ts : String → K) : List (String × NodeHash K) :=
  f.nodeIds.map (fun n => (n, NodeHash.ofRow Row.defaultState (ts n)))

/-- `_ensure_initialized` inside the lock, which is free. -/
def acquire (clock : Clock K) (f : RedisField K) (c : Call K) : Turn K :=
  if f.initialized then
    let next := f.body clock.now c
    ⟨next.1, false, next.2⟩
  else ⟨f, true, .sent (.hset (f.baselines clock.initTs)) (.baselines c)⟩

/-- `_ensure_initialized` up to its first suspension. -/
def enter (clock : Clock K) (f : RedisField K) (locked : Bool) (c : Call K) : Turn K :=
  if f.initialized then
    let next := f.body clock.now c
    ⟨next.1, locked, next.2⟩
  else if locked then ⟨f, true, .lock c⟩
  else f.acquire clock c

/-- A method up to its first suspension: the checks that precede `_ensure_initialized` first. -/
def begin (clock : Clock K) (f : RedisField K) (locked : Bool) : Call K → Turn K
  | .applyEvaporation rate =>
    if 0 ≤ rate ∧ rate < 1 then f.enter clock locked (.applyEvaporation rate)
    else ⟨f, locked, .raised (.valueError "decay_rate must be in [0, 1)")⟩
  | .removeNode n =>
    match f.nodeIndex.get? n with
    | none => ⟨f, locked, .returned .none⟩
    | some _ => f.enter clock locked (.removeNode n)
  | c => f.enter clock locked c

/-- `np.zeros((n_nodes, 4))` with the rows of the replies that have a place in it. -/
def stateRows (n : Nat) (raws : List (NodeHash K)) : List (Row K) :=
  (raws.take n).map NodeHash.row ++ List.replicate (n - raws.length) ⟨0, 0, 0, 0⟩

/-- The pipeline of the second round trip of `apply_evaporation`. -/
def evaporationMappings (nodeIds : List String) (flags : Row.DecayFlags) (factor now : K)
    (raws : List (NodeHash K)) : List (String × NodeHash K) :=
  (nodeIds.zip raws).map (fun p => (p.1, evaporationUpdates flags factor now p.2))

/-- A method from a reply to its next suspension. -/
def onReply (clock : Clock K) (f : RedisField K) (locked : Bool) :
    Reply K → Wait K → Option (Turn K)
  | .done, .baselines c => some ⟨f, locked, .sent .scriptLoad (.script c)⟩
  | .done, .script c =>
    -- The script is loaded: the lock is released and the method goes on.
    let next := { f with initialized := true }.body clock.now c
    some ⟨next.1, false, next.2⟩
  | .hashes raws, .stateVector =>
    some ⟨f, locked, .returned (.stateVector f.nodeIds (stateRows f.nodeIds.length raws))⟩
  | .hashes raws, .stateDict =>
    some ⟨f, locked, .returned (.stateDict (Dict.ofList (f.nodeIds.zip (raws.map NodeHash.row))))⟩
  | .hashes raws, .evaporation factor now =>
    some ⟨f, locked,
      .sent (.hset (evaporationMappings f.nodeIds f.decay factor now raws))
        (.evaporated factor now)⟩
  | .done, .removed n =>
    -- `_node_index.pop` raises if another call has removed the node meanwhile.
    match f.nodeIndex.get? n with
    | none => some ⟨f, locked, .raised (.keyError n)⟩
    | some idx =>
      some
        ⟨{ f with
            nodeIds := f.nodeIds.eraseIdx idx
            nodeIndex := Dict.enumerate (f.nodeIds.eraseIdx idx) },
          locked, .returned .none⟩
  | .done, .deposited => some ⟨f, locked, .returned .none⟩
  | .done, .evaporated _ _ => some ⟨f, locked, .returned .none⟩
  | .done, .added => some ⟨f, locked, .returned .none⟩
  | .done, .hydrated count => some ⟨f, locked, .returned (.updated count)⟩
  | _, _ => none

end RedisField

/-! ## The mesh -/

/-- The store and the client objects, with their init locks. -/
structure Mesh (K : Type*) where
  store : Store K
  client : Nat → Option (RedisField K × Bool)

/-- A call on client `client`, and where it is. -/
structure Coroutine (K : Type*) where
  client : Nat
  point : Point K

/-- A new client object, of a process that starts. -/
structure Construct (K : Type*) where
  client : Nat
  nodeIds : List String
  saturationScale : K
  decay : Row.DecayFlags
  decayRate : K
  decayIntervalSec : K

namespace Mesh

/-- Client `i` after a turn of one of its calls. -/
def put (x : Mesh K) (i : Nat) (t : Turn K) : Mesh K :=
  { x with client := Function.update x.client i (some (t.field, t.locked)) }

/-- One step of a call, with what the clock shows during it. -/
def resume [Transcendental K] (clock : Clock K) (x : Mesh K) (c : Coroutine K) :
    Option (Mesh K × Coroutine K) :=
  match x.client c.client with
  | none => none
  | some (f, locked) =>
    match c.point with
    | .start call =>
      let t := f.begin clock locked call
      some (x.put c.client t, ⟨c.client, t.point⟩)
    | .lock call =>
      if locked then none
      else
        let t := f.acquire clock call
        some (x.put c.client t, ⟨c.client, t.point⟩)
    | .sent r w =>
      let served := r.serve x.store
      some ({ x with store := served.1 }, ⟨c.client, .replied r served.2 w⟩)
    | .replied _ a w =>
      (f.onReply clock locked a w).map fun t => (x.put c.client t, ⟨c.client, t.point⟩)
    | .returned _ => none
    | .raised _ => none

/-- The steps of `resume` by name, of a call at a point on the client `f` under index `i`. -/
inductive Step [Transcendental K] (clock : Clock K) (x : Mesh K) (i : Nat) (f : RedisField K)
    (locked : Bool) : Point K → Mesh K → Point K → Prop where
  | start {call} :
      Step clock x i f locked (.start call) (x.put i (f.begin clock locked call))
        (f.begin clock locked call).point
  | lock {call} : ¬locked →
      Step clock x i f locked (.lock call) (x.put i (f.acquire clock call))
        (f.acquire clock call).point
  | serve {r w} :
      Step clock x i f locked (.sent r w) { x with store := (r.serve x.store).1 }
        (.replied r (r.serve x.store).2 w)
  | deliver {r a w t} : f.onReply clock locked a w = some t →
      Step clock x i f locked (.replied r a w) (x.put i t) t.point

theorem step_of_resume [Transcendental K] {clock : Clock K} {x y : Mesh K} {c d : Coroutine K}
    (h : resume clock x c = some (y, d)) :
    ∃ f locked, x.client c.client = some (f, locked) ∧
      Step clock x c.client f locked c.point y d.point := by
  obtain ⟨i, point⟩ := c
  cases hi : x.client i with
  | none => simp [resume, hi] at h
  | some client =>
    obtain ⟨f, locked⟩ := client
    refine ⟨f, locked, rfl, ?_⟩
    simp only [resume, hi] at h
    cases point with
    | start call =>
      cases h
      exact .start
    | lock call =>
      simp only at h
      split at h <;> cases h
      exact .lock ‹_›
    | sent r w =>
      cases h
      exact .serve
    | replied r a w =>
      obtain ⟨t, ht, hnext⟩ := Option.map_eq_some_iff.mp h
      cases hnext
      exact .deliver ht
    | returned result => cases h
    | raised e => cases h

/-- A process constructs a client. -/
def construct (c : Construct K) (x : Mesh K) : Option (Mesh K) :=
  match x.client c.client with
  | some _ => none
  | none =>
    some
      { x with
        client := Function.update x.client c.client
          (some (.new c.nodeIds c.saturationScale c.decay c.decayRate c.decayIntervalSec, false)) }

/-- Calls on the clients of a mesh. -/
def program [Transcendental K] :
    Tasks.Program (Mesh K) (Nat × Call K) (Clock K) (Construct K) (Coroutine K) where
  entry := fun call => ⟨call.1, .start call.2⟩
  resume := resume
  external := construct

end Mesh

abbrev MeshEvent (K : Type*) := Tasks.Event Nat (Nat × Call K) (Clock K) (Construct K)

abbrev MeshState (K : Type*) := Tasks.State Nat (Mesh K) (Coroutine K)

/-! ## A call with nothing in between -/

namespace Mesh

/-- The mesh after a method of client `i` that ran alone. -/
def after (x : Mesh K) (i : Nat) (r : RedisField K × Store K) : Mesh K :=
  ⟨r.2, Function.update x.client i (some (r.1, false))⟩

end Mesh

namespace RedisField

/-- How a method ends that runs alone. -/
def outcome [Transcendental K] (clock : Clock K) (f : RedisField K) (s : Store K) :
    Call K → Point K
  | .getStateVector =>
    .returned (.stateVector (f.getStateVector clock s).2.1.nodeIds (f.getStateVector clock s).1)
  | .exportStateDict => .returned (.stateDict (f.exportStateDict clock s).1)
  | .depositTrace n t =>
    match (f.depositTrace clock s n t).1 with
    | .error e => .raised e
    | .ok _ => .returned .none
  | .applyEvaporation rate =>
    match (f.applyEvaporation clock s rate).1 with
    | .error e => .raised e
    | .ok _ => .returned .none
  | .addNode _ _ => .returned .none
  | .removeNode _ => .returned .none
  | .hydrateFromSnapshot snapshot =>
    match (f.hydrateFromSnapshot Except.ok clock s snapshot).1 with
    | .error e => .raised e
    | .ok count => .returned (.updated count)

omit [LinearOrder K] in
theorem stateRows_readAll (nodeIds : List String) (s : Store K) :
    stateRows nodeIds.length (readAll nodeIds s) = (readAll nodeIds s).map NodeHash.row := by
  simp [stateRows, readAll]

/-- Up to its body a method of an initialised client does nothing. -/
theorem begin_of_initialized {f : RedisField K} (hf : f.initialized = true) (clock : Clock K)
    (locked : Bool) {c : Call K} (hc : f.ReachesInit c) :
    f.begin clock locked c = ⟨(f.body clock.now c).1, locked, (f.body clock.now c).2⟩ := by
  cases c with
  | applyEvaporation rate =>
    have hrate : 0 ≤ rate ∧ rate < 1 := hc
    simp [begin, hrate, enter, hf]
  | removeNode n =>
    obtain ⟨idx, hidx⟩ := Option.isSome_iff_exists.mp hc
    simp [begin, hidx, enter, hf]
  | _ => simp [begin, enter, hf]

theorem begin_of_not_initialized {f : RedisField K} (hf : f.initialized = false)
    (clock : Clock K) {c : Call K} (hc : f.ReachesInit c) :
    f.begin clock false c =
      ⟨f, true, .sent (.hset (f.baselines clock.initTs)) (.baselines c)⟩ := by
  cases c with
  | applyEvaporation rate =>
    have hrate : 0 ≤ rate ∧ rate < 1 := hc
    simp [begin, hrate, enter, hf, acquire]
  | removeNode n =>
    obtain ⟨idx, hidx⟩ := Option.isSome_iff_exists.mp hc
    simp [begin, hidx, enter, hf, acquire]
  | _ => simp [begin, enter, hf, acquire]

/-- A call that fails the checks before `_ensure_initialized` is over at once. -/
theorem begin_of_not_reachesInit [Transcendental K] {f : RedisField K} (clock : Clock K)
    (s : Store K) {c : Call K} (hc : ¬f.ReachesInit c) :
    f.begin clock false c = ⟨f, false, f.outcome clock s c⟩ ∧ f.exec clock s c = (f, s) := by
  cases c with
  | applyEvaporation rate =>
    have hrate : ¬(0 ≤ rate ∧ rate < 1) := hc
    simp [begin, outcome, exec, applyEvaporation, hrate]
  | removeNode n =>
    have hn : f.nodeIndex.get? n = none := by simpa [ReachesInit] using hc
    simp [begin, outcome, exec, removeNode, hn]
  | _ => exact absurd trivial hc

/-- The first call of a client initialises it and goes on as a call of the initialised client. -/
theorem exec_of_not_initialized [Transcendental K] {f : RedisField K}
    (hf : f.initialized = false) (clock : Clock K) (s : Store K) {c : Call K}
    (hc : f.ReachesInit c) :
    f.exec clock s c =
        { f with initialized := true }.exec clock (writeBaselines f.nodeIds clock.initTs s) c ∧
      f.outcome clock s c =
        { f with initialized := true }.outcome clock
          (writeBaselines f.nodeIds clock.initTs s) c := by
  cases c with
  | applyEvaporation rate =>
    have hrate : 0 ≤ rate ∧ rate < 1 := hc
    simp [exec, outcome, applyEvaporation, ensureInitialized, hf, hrate]
  | removeNode n =>
    obtain ⟨idx, hidx⟩ := Option.isSome_iff_exists.mp hc
    simp [exec, outcome, removeNode, ensureInitialized, hf, hidx]
  | getStateVector => simp [exec, outcome, getStateVector, ensureInitialized, hf]
  | exportStateDict => simp [exec, outcome, exportStateDict, ensureInitialized, hf]
  | depositTrace n t => simp [exec, outcome, depositTrace, ensureInitialized, hf]
  | addNode n tags => simp [exec, outcome, addNode, ensureInitialized, hf]
  | hydrateFromSnapshot snapshot =>
    simp [exec, outcome, hydrateFromSnapshot, ensureInitialized, hf]

end RedisField

namespace Mesh

section Put

omit [Field K] [LinearOrder K]

@[simp] theorem store_put (x : Mesh K) (i : Nat) (t : Turn K) : (x.put i t).store = x.store := rfl

@[simp] theorem put_put (x : Mesh K) (i : Nat) (t u : Turn K) :
    (x.put i t).put i u = x.put i u := by
  simp [put]

theorem put_store (x : Mesh K) (i : Nat) (t : Turn K) (s : Store K) :
    { x.put i t with store := s } = { x with store := s }.put i t := rfl

theorem client_put (x : Mesh K) (i : Nat) (t : Turn K) :
    (x.put i t).client i = some (t.field, t.locked) := by
  simp [put]

end Put

/-- A request is served and the reply delivered. -/
theorem roundTrip_alone [Transcendental K] (clock : Clock K) {x : Mesh K} {i : Nat}
    {f : RedisField K} {locked : Bool} (hx : x.client i = some (f, locked)) (r : Request K)
    (w : Wait K) {t : Turn K} (ht : f.onReply clock locked (r.serve x.store).2 w = some t)
    (n : Nat) :
    Run.execAll program.alone (x, ⟨i, .sent r w⟩) (List.replicate (n + 2) clock) =
      Run.execAll program.alone ({ x with store := (r.serve x.store).1 }.put i t, ⟨i, t.point⟩)
        (List.replicate n clock) := by
  simp [List.replicate_succ, Tasks.Program.alone, program, resume, hx, ht]

/-- From its body on a method that runs alone ends as the method of the initialised client. -/
theorem body_alone [Transcendental K] (clock : Clock K) (x : Mesh K) (i : Nat) {f : RedisField K}
    (hf : f.initialized = true) {c : Call K} (hc : f.ReachesInit c) :
    ∃ n, Run.execAll program.alone
        (x.put i ⟨(f.body clock.now c).1, false, (f.body clock.now c).2⟩,
          ⟨i, (f.body clock.now c).2⟩) (List.replicate n clock) =
      some (x.after i (f.exec clock x.store c), ⟨i, f.outcome clock x.store c⟩) := by
  cases c with
  | getStateVector =>
    refine ⟨2, (roundTrip_alone clock (client_put ..) _ _ rfl 0).trans ?_⟩
    simp [RedisField.body, put, Request.serve, after, RedisField.exec, RedisField.outcome,
      RedisField.getStateVector, RedisField.ensureInitialized_of_initialized hf,
      RedisField.stateRows_readAll]
  | exportStateDict =>
    refine ⟨2, (roundTrip_alone clock (client_put ..) _ _ rfl 0).trans ?_⟩
    simp [RedisField.body, put, Request.serve, after, RedisField.exec, RedisField.outcome,
      RedisField.exportStateDict, RedisField.ensureInitialized_of_initialized hf]
  | depositTrace m t =>
    simp only [RedisField.exec, RedisField.outcome, RedisField.depositTrace_of_initialized hf,
      RedisField.body, RedisField.indexOf]
    cases f.nodeIndex.get? m with
    | none => exact ⟨0, rfl⟩
    | some idx =>
      refine ⟨2, (roundTrip_alone clock (client_put ..) _ _ rfl 0).trans ?_⟩
      simp [put, Request.serve, after, RedisField.evalDeposit]
  | applyEvaporation rate =>
    have hrate : 0 ≤ rate ∧ rate < 1 := hc
    refine ⟨4, (roundTrip_alone clock (client_put ..) _ _ rfl 2).trans ?_⟩
    refine (roundTrip_alone clock (client_put ..) _ _ rfl 0).trans ?_
    simp [RedisField.body, put, Request.serve, after, RedisField.exec, RedisField.outcome,
      RedisField.applyEvaporation_of_initialized hf _ _ hrate, RedisField.writeBack,
      RedisField.evaporationMappings]
  | addNode m tags =>
    simp only [RedisField.exec, RedisField.outcome, RedisField.addNode, RedisField.body,
      RedisField.ensureInitialized_of_initialized hf]
    cases f.nodeIndex.get? m with
    | some idx => exact ⟨0, rfl⟩
    | none =>
      refine ⟨2, (roundTrip_alone clock (client_put ..) _ _ rfl 0).trans ?_⟩
      simp [put, Request.serve, after, Store.hsetAll]
  | removeNode m =>
    obtain ⟨idx, hidx⟩ := Option.isSome_iff_exists.mp hc
    have hpop : f.onReply clock false .done (.removed m) =
        some ⟨{ f with
            nodeIds := f.nodeIds.eraseIdx idx
            nodeIndex := Dict.enumerate (f.nodeIds.eraseIdx idx) }, false, .returned .none⟩ := by
      simp [RedisField.onReply, hidx]
    refine ⟨2, (roundTrip_alone clock (client_put ..) _ _ hpop 0).trans ?_⟩
    simp [put, Request.serve, after, RedisField.exec, RedisField.outcome, RedisField.removeNode,
      RedisField.ensureInitialized_of_initialized hf, hidx]
  | hydrateFromSnapshot snapshot =>
    simp only [RedisField.exec, RedisField.outcome, RedisField.hydrateFromSnapshot,
      RedisField.body, RedisField.ensureInitialized_of_initialized hf]
    cases snapshot.nodeMetrics with
    | error e => exact ⟨0, rfl⟩
    | ok nodeMetrics =>
      simp only
      cases RedisField.hydrateMappings Except.ok f nodeMetrics.entries with
      | error e => exact ⟨0, rfl⟩
      | ok mappings =>
        cases mappings with
        | nil => exact ⟨0, rfl⟩
        | cons m mappings =>
          refine ⟨2, (roundTrip_alone clock (client_put ..) _ _ rfl 0).trans ?_⟩
          simp [put, Request.serve, after]

/-- A call on a client whose lock is free, with nothing in between, is the method. -/
theorem run_alone [Transcendental K] (clock : Clock K) {s : MeshState K} {tid i : Nat}
    {f : RedisField K} (hfree : s.task tid = none)
    (hclient : s.shared.client i = some (f, false)) (c : Call K) :
    ∃ n, Run.execAll program.step s
        (.spawn tid (i, c) :: (List.replicate n clock).map (.resume tid)) =
      some (s.move tid (s.shared.after i (f.exec clock s.shared.store c))
        ⟨i, f.outcome clock s.shared.store c⟩) := by
  obtain ⟨x, tasks⟩ := s
  suffices h : ∃ n, Run.execAll program.alone (x, ⟨i, .start c⟩) (List.replicate n clock) =
      some (x.after i (f.exec clock x.store c), ⟨i, f.outcome clock x.store c⟩) by
    obtain ⟨n, hn⟩ := h
    exact ⟨n, (program.execAll_alone hfree _ _).trans (congrArg (Option.map _) hn)⟩
  have hx : x.client i = some (f, false) := hclient
  have hstart : ∀ n, Run.execAll program.alone (x, ⟨i, .start c⟩)
      (List.replicate (n + 1) clock) = Run.execAll program.alone
        (x.put i (f.begin clock false c), ⟨i, (f.begin clock false c).point⟩)
        (List.replicate n clock) := fun n => by
    simp [List.replicate_succ, Tasks.Program.alone, program, resume, hx]
  by_cases hc : f.ReachesInit c
  · cases hf : f.initialized with
    | true =>
      obtain ⟨n, hn⟩ := body_alone clock x i hf hc
      refine ⟨n + 1, ?_⟩
      rw [hstart, f.begin_of_initialized hf clock false hc]
      exact hn
    | false =>
      -- Two round trips of `_ensure_initialized` come first.
      have hc' : { f with initialized := true }.ReachesInit c := by cases c <;> exact hc
      obtain ⟨n, hn⟩ := body_alone clock
        { x with store := RedisField.writeBaselines f.nodeIds clock.initTs x.store } i
        (f := { f with initialized := true }) rfl hc'
      obtain ⟨hexec, houtcome⟩ := f.exec_of_not_initialized hf clock x.store hc
      refine ⟨n + 5, ?_⟩
      rw [hstart, f.begin_of_not_initialized hf clock hc, hexec, houtcome]
      refine (roundTrip_alone clock (client_put ..) _ _ rfl (n + 2)).trans ?_
      refine (roundTrip_alone clock (client_put ..) _ _ rfl n).trans (Eq.trans ?_ hn)
      simp only [store_put, put_put, put_store]
      rfl
  · obtain ⟨hbegin, hexec⟩ := f.begin_of_not_reachesInit clock x.store hc
    refine ⟨1, ?_⟩
    rw [hstart, hbegin, hexec]
    rfl

end Mesh

end StigmergicMesh.Redis
