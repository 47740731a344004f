import StigmergicMesh.Redis.Store
import StigmergicMesh.Field.InMemory

/-!
# The Redis memory field

`RedisPheromoneMemoryField`: a client object per replica over the shared node hashes. Methods are
given here as they run when nothing else runs in between; `readAll` and `writeBack` are the two
round trips of `apply_evaporation`, between which other clients can run.

A call reads the clock several times: `Clock.initTs` is what the baseline writes of
`_ensure_initialized` read for each node, `Clock.now` what the call itself reads.
-/

namespace StigmergicMesh.Redis

structure RedisField (K : Type*) where
  nodeIds : List String
  nodeIndex : Dict String Nat
  saturationScale : K
  decay : Row.DecayFlags
  decayRate : K
  decayIntervalSec : K
  initialized : Bool

structure Clock (K : Type*) where
  initTs : String → K
  now : K

namespace RedisField

variable {K : Type*} [Field K] [LinearOrder K]

/-- `__init__`, over an existing client connection. -/
def new (nodeIds : List String) (saturationScale : K) (decay : Row.DecayFlags)
    (decayRate decayIntervalSec : K) : RedisField K where
  nodeIds := nodeIds
  nodeIndex := Dict.enumerate nodeIds
  saturationScale := saturationScale
  decay := decay
  decayRate := decayRate
  decayIntervalSec := decayIntervalSec
  initialized := false

/-- The pipelined baseline writes of `_ensure_initialized`. -/
def writeBaselines (nodeIds : List String) (ts : String → K) (s : Store K) : Store K :=
  s.hsetAll (nodeIds.map (fun n => (n, NodeHash.ofRow Row.defaultState (ts n))))

/-- `_ensure_initialized`. -/
def ensureInitialized (initTs : String → K) (f : RedisField K) (s : Store K) :
    RedisField K × Store K :=
  if f.initialized then (f, s)
  else ({ f with initialized := true }, writeBaselines f.nodeIds initTs s)

/-- `_index_of`. -/
def indexOf (f : RedisField K) (nodeId : String) : Except FieldError Nat :=
  match f.nodeIndex.get? nodeId with
  | none => .error (.keyError nodeId)
  | some idx => .ok idx

/-! ## Reads -/

/-- The pipelined `HGETALL`s, one reply per node id. -/
def readAll (nodeIds : List String) (s : Store K) : List (NodeHash K) :=
  nodeIds.map (fun n => s.hgetall (nodeKey n))

/-- `get_state_vector`. -/
def getStateVector (clock : Clock K) (f : RedisField K) (s : Store K) :
    List (Row K) × RedisField K × Store K :=
  let (f, s) := f.ensureInitialized clock.initTs s
  ((readAll f.nodeIds s).map NodeHash.row, f, s)

/-- `export_state_dict`. -/
def exportStateDict (clock : Clock K) (f : RedisField K) (s : Store K) :
    Dict String (Row K) × RedisField K × Store K :=
  let (f, s) := f.ensureInitialized clock.initTs s
  (Dict.ofList (f.nodeIds.zip ((readAll f.nodeIds s).map NodeHash.row)), f, s)

/-! ## Deposits and evaporation -/

/-- The arguments `deposit_trace` sends to the script. -/
def scriptArgs (f : RedisField K) (now : K) (t : Trace K) : ScriptArgs K where
  decayRate := f.decayRate
  decaySuccess := f.decay.decaySuccess
  decayIntervalSec := f.decayIntervalSec
  decayCapability := f.decay.decayCapability
  successVal := Row.successVal t.success
  now := now
  latencySec := t.latencySec
  saturatedLoad := (t.activeLoad : K) * f.saturationScale
  capabilityMatch := Row.clampUnit t.capabilityMatch

/-- The `EVALSHA` of `deposit_trace`. -/
def evalDeposit [Transcendental K] (f : RedisField K) (now : K) (nodeId : String) (t : Trace K)
    (s : Store K) : Store K :=
  Function.update s (nodeKey nodeId)
    (some (depositScript (f.scriptArgs now t) (s.hgetall (nodeKey nodeId))))

/-- `deposit_trace`. -/
def depositTrace [Transcendental K] (clock : Clock K) (f : RedisField K) (s : Store K)
    (nodeId : String) (t : Trace K) : Except FieldError Unit × RedisField K × Store K :=
  let (f, s) := f.ensureInitialized clock.initTs s
  match f.indexOf nodeId with
  | .error e => (.error e, f, s)
  | .ok _ => (.ok (), f, f.evalDeposit clock.now nodeId t s)

/-- `updates` of one node: V and C only behind their flags. -/
def evaporationUpdates (flags : Row.DecayFlags) (factor now : K) (raw : NodeHash K) :
    NodeHash K where
  V := if flags.decaySuccess then some (raw.row.V * factor) else none
  L := some (raw.row.L * factor)
  S := some (raw.row.S * factor)
  C := if flags.decayCapability then some (raw.row.C * factor) else none
  ts := some now

/-- The pipelined `HSET`s of `apply_evaporation`, computed from what the reads returned. -/
def writeBack (nodeIds : List String) (flags : Row.DecayFlags) (factor now : K)
    (raws : List (NodeHash K)) (s : Store K) : Store K :=
  s.hsetAll ((nodeIds.zip raws).map (fun p => (p.1, evaporationUpdates flags factor now p.2)))

/-- `apply_evaporation`. -/
def applyEvaporation (clock : Clock K) (f : RedisField K) (s : Store K) (decayRate : K) :
    Except FieldError Unit × RedisField K × Store K :=
  if 0 ≤ decayRate ∧ decayRate < 1 then
    let (f, s) := f.ensureInitialized clock.initTs s
    let raws := readAll f.nodeIds s
    (.ok (), f, writeBack f.nodeIds f.decay (1 - decayRate) clock.now raws s)
  else (.error (.valueError "decay_rate must be in [0, 1)"), f, s)

/-! ## Membership -/

/-- `add_node`; the capability tags are accepted and not read. -/
def addNode (clock : Clock K) (f : RedisField K) (s : Store K) (nodeId : String)
    (_capabilityTags : List String) : RedisField K × Store K :=
  let (f, s) := f.ensureInitialized clock.initTs s
  match f.nodeIndex.get? nodeId with
  | some _ => (f, s)
  | none =>
    ({ f with
        nodeIndex := f.nodeIndex.set nodeId f.nodeIds.length
        nodeIds := f.nodeIds ++ [nodeId] },
      s.hset (nodeKey nodeId) (NodeHash.ofRow Row.defaultState clock.now))

/-- `remove_node`. -/
def removeNode (clock : Clock K) (f : RedisField K) (s : Store K) (nodeId : String) :
    RedisField K × Store K :=
  match f.nodeIndex.get? nodeId with
  | none => (f, s)
  | some idx =>
    let (f, s) := f.ensureInitialized clock.initTs s
    ({ f with
        nodeIds := f.nodeIds.eraseIdx idx
        nodeIndex := Dict.enumerate (f.nodeIds.eraseIdx idx) },
      s.delete (nodeKey nodeId))

/-! ## Hydration -/

section Hydrate

variable {α : Type*} (float : α → Except FieldError K)

/-- `if "V" in traces: mapping["V"] = float(traces["V"])`. -/
def convertTrace : Option α → Except FieldError (Option K)
  | none => .ok none
  | some x => (float x).map some

def convertTraces (t : Traces α) : Except FieldError (Traces K) := do
  let V ← convertTrace float t.V
  let L ← convertTrace float t.L
  let S ← convertTrace float t.S
  let C ← convertTrace float t.C
  return ⟨V, L, S, C⟩

/-- `if mapping:`. -/
def hasTrace (t : Traces K) : Bool := t.V.isSome || t.L.isSome || t.S.isSome || t.C.isSome

/-- The mappings queued on the pipeline by the loop of `hydrate_from_snapshot`. -/
def hydrateMappings (f : RedisField K) :
    List (String × Traces α) → Except FieldError (List (String × Traces K))
  | [] => .ok []
  | (nid, traces) :: rest =>
    match f.nodeIndex.get? nid with
    | none => hydrateMappings f rest
    | some _ => do
      let mapping ← convertTraces float traces
      let mappings ← hydrateMappings f rest
      return if hasTrace mapping then (nid, mapping) :: mappings else mappings

/-- `hydrate_from_snapshot`: a conversion that fails leaves the pipeline unexecuted. -/
def hydrateFromSnapshot (clock : Clock K) (f : RedisField K) (s : Store K)
    (snapshot : Snapshot α) : Except FieldError Nat × RedisField K × Store K :=
  let (f, s) := f.ensureInitialized clock.initTs s
  match snapshot.nodeMetrics with
  | .error e => (.error e, f, s)
  | .ok nodeMetrics =>
    match hydrateMappings float f nodeMetrics.entries with
    | .error e => (.error e, f, s)
    | .ok mappings =>
      (.ok mappings.length, f, s.hsetAll (mappings.map (fun m =>
        (m.1, ⟨m.2.V, m.2.L, m.2.S, m.2.C, some clock.now⟩))))

end Hydrate

end RedisField

end StigmergicMesh.Redis
