import StigmergicMesh.Field.Row

/-!
# The in-memory memory field

`InMemoryPheromoneMemoryField`: the ordered node ids, the index from id to row, and the state
matrix. Every method runs its body under the field's lock without suspending, so a method is one
step from field to field. A method that raises returns the error beside the field as it left it,
which for `hydrate_from_snapshot` may already hold some of the new traces.
-/

namespace StigmergicMesh

/-- The exceptions the memory fields raise. -/
inductive FieldError where
  /-- `KeyError(f"Unknown node_id: {node_id!r}")`. -/
  | keyError (nodeId : String)
  | valueError (message : String)
  | indexError
  /-- A `MatrixSnapshot` has no method `get`. -/
  | attributeError
  deriving DecidableEq, Repr

/-- What `hydrate_from_snapshot` accepts: a `MatrixSnapshot`, or a plain dict in which
`node_metrics` may be missing. -/
inductive Snapshot (α : Type*) where
  | matrixSnapshot (nodeMetrics : Dict String (Traces α))
  | dict (nodeMetrics : Option (Dict String (Traces α)))

/-- `getattr(snapshot, "node_metrics", None) or snapshot.get("node_metrics", {})`. -/
def Snapshot.nodeMetrics {α : Type*} : Snapshot α → Except FieldError (Dict String (Traces α))
  | .matrixSnapshot m =>
    -- An empty mapping is falsy, so the right operand of `or` is evaluated.
    if m.entries.isEmpty then .error .attributeError else .ok m
  | .dict none => .ok Dict.empty
  | .dict (some m) => .ok m

structure InMemoryField (K : Type*) where
  nodeIds : List String
  nodeIndex : Dict String Nat
  state : List (Row K)
  saturationScale : K
  decay : Row.DecayFlags

namespace InMemoryField

variable {K : Type*} [Field K] [LinearOrder K]

/-! ## Construction and lookups -/

/-- `__init__`. -/
def new (nodeIds : List String) (initialState : Option (List (Row K))) (saturationScale : K)
    (decay : Row.DecayFlags) : Except FieldError (InMemoryField K) :=
  let n := nodeIds.length
  let field := fun rows : List (Row K) =>
    (⟨nodeIds, Dict.enumerate nodeIds, rows, saturationScale, decay⟩ : InMemoryField K)
  match initialState with
  | some rows =>
    let m := rows.length
    if m = n then .ok (field rows)
    else .error (.valueError
      s!"initial_state shape ({m}, 4) does not match expected ({n}, 4)")
  | none => .ok (field (List.replicate n Row.defaultState))

/-- `_index_of`. -/
def indexOf (f : InMemoryField K) (nodeId : String) : Except FieldError Nat :=
  match f.nodeIndex.get? nodeId with
  | none => .error (.keyError nodeId)
  | some idx => .ok idx

/-- `get_state_vector`. -/
def getStateVector (f : InMemoryField K) : List (Row K) := f.state

/-- `export_state_dict`. -/
def exportStateDict (f : InMemoryField K) : Dict String (Row K) :=
  Dict.ofList (f.nodeIds.zip f.state)

/-! ## Updates -/

/-- Assign to the columns of row `idx`; an index past the matrix raises `IndexError`. -/
def updateRow (f : InMemoryField K) (idx : Nat) (update : Row K → Row K) :
    Except FieldError Unit × InMemoryField K :=
  match f.state[idx]? with
  | none => (.error .indexError, f)
  | some row => (.ok (), { f with state := f.state.set idx (update row) })

/-- `deposit_trace`. -/
def depositTrace (f : InMemoryField K) (nodeId : String) (t : Trace K) :
    Except FieldError Unit × InMemoryField K :=
  match f.indexOf nodeId with
  | .error e => (.error e, f)
  | .ok idx => f.updateRow idx (Row.deposit f.saturationScale t)

/-- `apply_evaporation`. -/
def applyEvaporation (f : InMemoryField K) (decayRate : K) :
    Except FieldError Unit × InMemoryField K :=
  if 0 ≤ decayRate ∧ decayRate < 1 then
    (.ok (), { f with state := f.state.map (Row.evaporate f.decay decayRate) })
  else (.error (.valueError "decay_rate must be in [0, 1)"), f)

/-- `add_node`; the capability tags are accepted and not read. -/
def addNode (f : InMemoryField K) (nodeId : String) (_capabilityTags : List String) :
    InMemoryField K :=
  match f.nodeIndex.get? nodeId with
  | some _ => f
  | none =>
    { f with
      nodeIndex := f.nodeIndex.set nodeId f.nodeIds.length
      nodeIds := f.nodeIds ++ [nodeId]
      state := f.state ++ [Row.defaultState] }

/-- `remove_node`. -/
def removeNode (f : InMemoryField K) (nodeId : String) : InMemoryField K :=
  match f.nodeIndex.get? nodeId with
  | none => f
  | some idx =>
    { f with
      nodeIds := f.nodeIds.eraseIdx idx
      nodeIndex := Dict.enumerate (f.nodeIds.eraseIdx idx)
      state := f.state.eraseIdx idx }

section Hydrate

variable {α : Type*} (float : α → Except FieldError K)

/-- `if "V" in traces: self._state[idx, 0] = float(traces["V"])` and so on, in turn. A failed
conversion leaves the columns before it written. -/
def writeColumns : List ((Row K → K → Row K) × Option α) → Row K → Except FieldError Unit × Row K
  | [], row => (.ok (), row)
  | (_, none) :: columns, row => writeColumns columns row
  | (write, some x) :: columns, row =>
    match float x with
    | .error e => (.error e, row)
    | .ok y => writeColumns columns (write row y)

/-- The four columns in the order they are written. -/
def columns (t : Traces α) : List ((Row K → K → Row K) × Option α) :=
  [(fun r y => { r with V := y }, t.V), (fun r y => { r with L := y }, t.L),
    (fun r y => { r with S := y }, t.S), (fun r y => { r with C := y }, t.C)]

/-- The loop of `hydrate_from_snapshot`, with its count of updated nodes. -/
def hydrateLoop :
    List (String × Traces α) → Nat → InMemoryField K → Except FieldError Nat × InMemoryField K
  | [], updated, f => (.ok updated, f)
  | (nid, traces) :: rest, updated, f =>
    match f.nodeIndex.get? nid with
    | none => hydrateLoop rest updated f
    | some idx =>
      match f.state[idx]? with
      -- The index only holds positions of the matrix (`Consistent`), so this is not reached.
      | none => (.error .indexError, f)
      | some row =>
        match writeColumns float (columns traces) row with
        | (.error e, row') => (.error e, { f with state := f.state.set idx row' })
        | (.ok (), row') =>
          hydrateLoop rest (updated + 1) { f with state := f.state.set idx row' }

/-- `hydrate_from_snapshot`. -/
def hydrateFromSnapshot (f : InMemoryField K) (snapshot : Snapshot α) :
    Except FieldError Nat × InMemoryField K :=
  match snapshot.nodeMetrics with
  | .error e => (.error e, f)
  | .ok nodeMetrics => hydrateLoop float nodeMetrics.entries 0 f

end Hydrate

end InMemoryField

end StigmergicMesh
