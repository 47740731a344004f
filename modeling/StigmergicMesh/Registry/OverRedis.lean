import StigmergicMesh.Redis.Coroutines
import StigmergicMesh.Registry.Coroutines

/-!
# The registry over the Redis field

The methods of the registry when the memory field they call is a Redis client. A call of the field
runs inside the call of the registry up to its own suspensions, which are then those of the
registry's call; when it returns, the registry's call goes on in the same step.
-/

namespace StigmergicMesh.Registry

open Redis (RedisField Clock Store Turn)

variable {K : Type*} [Field K] [LinearOrder K]

/-- The known nodes, the field with its init lock and store, and which heartbeat keys exist. -/
structure RedisShared (K : Type*) where
  known : Dict String (KnownNode K)
  field : RedisField K
  locked : Bool
  store : Store K
  keys : String → Bool

/-- Where a call is, with the locals it keeps. -/
inductive RedisPoint (K : Type*) where
  | start (c : Call)
  /-- In the `PUBLISH` of `register_worker`. -/
  | publishing (cfg : NodeConfig) (nodeId : String)
  /-- In the `SETEX` of `register_worker`. -/
  | registering (cfg : NodeConfig) (nodeId : String) (served : Bool)
  /-- In `add_node`, at a point of it. -/
  | adding (nodeId : String) (p : Redis.Point K)
  | registered (nodeId : String)
  /-- In the `SETEX` of `send_heartbeat`. -/
  | refreshing (nodeId : String) (served : Bool)
  | refreshed (nodeId : String)
  | ignored (nodeId : String)
  /-- In the `EXISTS` for a node, with the nodes that come after it. -/
  | checking (nodeId : String) (rest : List String) (reply : Option Bool)
  /-- In `deposit_trace`, at a point of it. -/
  | punishing (nodeId : String) (rest : List String) (p : Redis.Point K)
  | pruned
  | raised (e : FieldError)

namespace RedisShared

def alive (x : RedisShared K) (n : String) : Bool := x.keys (heartbeatKey n)

/-- `SETEX` of the heartbeat key. -/
def setex (x : RedisShared K) (n : String) : RedisShared K :=
  { x with keys := Function.update x.keys (heartbeatKey n) true }

/-- The key runs out; a key that is not there cannot. -/
def expire (n : String) (x : RedisShared K) : Option (RedisShared K) :=
  if x.alive n then some { x with keys := Function.update x.keys (heartbeatKey n) false } else none

/-- `_known_nodes[node_id] = {...}` of `register_worker`. -/
def remember (x : RedisShared K) (cfg : NodeConfig) (n : String) (now : K) : RedisShared K :=
  { x with known := x.known.set n ⟨.array (cfg.tags.map .string), cfg.toJson, now⟩ }

/-- The registry after a turn of a call of its field. -/
def put (x : RedisShared K) (t : Turn K) : RedisShared K :=
  { x with field := t.field, locked := t.locked }

/-- One step of a call of the field. -/
def fieldStep [Transcendental K] (clock : Clock K) (x : RedisShared K) :
    Redis.Point K → Option (RedisShared K × Redis.Point K)
  | .start c =>
    let t := x.field.begin clock x.locked c
    some (x.put t, t.point)
  | .lock c =>
    if x.locked then none
    else
      let t := x.field.acquire clock c
      some (x.put t, t.point)
  | .sent r w =>
    let served := r.serve x.store
    some ({ x with store := served.1 }, .replied r served.2 w)
  | .replied _ a w => (x.field.onReply clock x.locked a w).map fun t => (x.put t, t.point)
  | .returned _ => none
  | .raised _ => none

end RedisShared

/-- The loop of `prune_unhealthy_workers` at its head. -/
def scanRedis : List String → RedisPoint K
  | [] => .pruned
  | n :: rest => .checking n rest none

/-- `register_worker` from a point of `add_node`. -/
def afterAdd (x : RedisShared K) (n : String) : Redis.Point K → RedisShared K × RedisPoint K
  | .returned _ => (x, .registered n)
  | .raised e => (x, .raised e)
  | p => (x, .adding n p)

/-- `prune_unhealthy_workers` from a point of `deposit_trace`: when it returns, the entry of the
node is deleted. -/
def afterDeposit (x : RedisShared K) (n : String) (rest : List String) :
    Redis.Point K → RedisShared K × RedisPoint K
  | .returned _ =>
    if n ∈ x.known.keys then ({ x with known := x.known.erase n }, scanRedis rest)
    else (x, .raised (.keyError n))
  | .raised e => (x, .raised e)
  | p => (x, .punishing n rest p)

/-- One step of a call, with what the clock shows. -/
def resumeRedis [Transcendental K] (clock : Clock K) (x : RedisShared K) :
    RedisPoint K → Option (RedisShared K × RedisPoint K)
  | .start (.registerWorker cfg) =>
    match cfg.nodeId with
    | none => some (x, .raised (.keyError "node_id"))
    | some n => some (x, .publishing cfg n)
  | .start (.sendHeartbeat n) =>
    if n ∈ x.known.keys then some (x, .refreshing n false) else some (x, .ignored n)
  | .start .pruneUnhealthyWorkers => some (x, scanRedis x.known.keys)
  | .publishing cfg n => some (x, .registering cfg n false)
  | .registering cfg n false => some (x.setex n, .registering cfg n true)
  | .registering cfg n true =>
    let y := x.remember cfg n clock.now
    if n ∈ y.field.nodeIds then some (y, .registered n)
    else
      -- `add_node` runs at once, up to its first suspension.
      let t := y.field.begin clock y.locked (.addNode n cfg.tags)
      some (afterAdd (y.put t) n t.point)
  | .adding n p => (x.fieldStep clock p).map fun next => afterAdd next.1 n next.2
  | .refreshing n false => some (x.setex n, .refreshing n true)
  | .refreshing n true =>
    match x.known.get? n with
    | none => some (x, .raised (.keyError n))
    | some node =>
      some ({ x with known := x.known.set n { node with lastHeartbeat := clock.now } },
        .refreshed n)
  | .checking n rest none => some (x, .checking n rest (some (x.alive n)))
  | .checking _ rest (some true) => some (x, scanRedis rest)
  | .checking n rest (some false) =>
    let t := x.field.begin clock x.locked (.depositTrace n WorkerRegistry.pruneTrace)
    some (afterDeposit (x.put t) n rest t.point)
  | .punishing n rest p => (x.fieldStep clock p).map fun next => afterDeposit next.1 n rest next.2
  | _ => none

def redisProgram [Transcendental K] :
    Tasks.Program (RedisShared K) Call (Clock K) Expiry (RedisPoint K) where
  entry := .start
  resume := resumeRedis
  external := fun e => RedisShared.expire e.nodeId

abbrev RedisEvent (K : Type*) := Tasks.Event Nat Call (Clock K) Expiry

abbrev RedisState (K : Type*) := Tasks.State Nat (RedisShared K) (RedisPoint K)

end StigmergicMesh.Registry
