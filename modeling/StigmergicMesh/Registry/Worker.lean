import StigmergicMesh.Library.Json
import StigmergicMesh.Field.FiniteMap

/-!
# The worker registry

`WorkerRegistry`: the known nodes, and the memory field it expands when a worker registers and
punishes when a worker's heartbeat key is gone. The methods are given here as they run when nothing
else runs in between, over the in-memory field; what the server answers to `EXISTS` is an argument.
`Registry.Coroutines` cuts them at their awaits.
-/

namespace StigmergicMesh

/-- A `node_config` dictionary: the two keys the registry reads, which can be missing, and the
others, which it carries along. -/
structure NodeConfig where
  nodeId : Option String
  capabilityTags : Option (List String)
  others : List (String × Json)

/-- The dictionary as it is published and stored. -/
def NodeConfig.toJson (cfg : NodeConfig) : Json :=
  .object ((cfg.nodeId.map fun n => ("node_id", .string n)).toList ++
    (cfg.capabilityTags.map fun ts => ("capability_tags", .array (ts.map .string))).toList ++
      cfg.others)

/-- `node_config.get("capability_tags", [])`. -/
def NodeConfig.tags (cfg : NodeConfig) : List String := cfg.capabilityTags.getD []

/-- An entry of `_known_nodes`. -/
structure KnownNode (K : Type*) where
  capabilityTags : Json
  config : Json
  lastHeartbeat : K

/-- The parts of the registry that its methods change. -/
structure WorkerRegistry (K : Type*) where
  known : Dict String (KnownNode K)
  field : InMemoryField K

/-- The registry tracks what it knows. -/
structure WorkerRegistry.Tracked {K : Type*} (r : WorkerRegistry K) : Prop where
  consistent : r.field.Consistent
  known : ∀ n ∈ r.known.keys, n ∈ r.field.nodeIds

/-- `_heartbeat_key`. -/
def heartbeatKey (nodeId : String) : String := "stigmergic:heartbeat:" ++ nodeId

@[simp] theorem heartbeatKey_inj {m n : String} : heartbeatKey m = heartbeatKey n ↔ m = n :=
  String.append_right_inj _

namespace WorkerRegistry

variable {K : Type*} [Field K] [LinearOrder K]

/-! ## Registration and heartbeat -/

/-- `_known_nodes[node_id] = {...}`. -/
def remember (r : WorkerRegistry K) (nodeId : String) (capabilityTags config : Json) (now : K) :
    WorkerRegistry K :=
  { r with known := r.known.set nodeId ⟨capabilityTags, config, now⟩ }

/-- `if node_id not in memory_field.node_ids: await memory_field.add_node(...)`. -/
def track (r : WorkerRegistry K) (nodeId : String) (capabilityTags : List String) :
    WorkerRegistry K :=
  if nodeId ∈ r.field.nodeIds then r
  else { r with field := r.field.addNode nodeId capabilityTags }

/-- `register_worker`, on the registry. -/
def registerWorker (now : K) (r : WorkerRegistry K) (cfg : NodeConfig) :
    Except FieldError Unit × WorkerRegistry K :=
  match cfg.nodeId with
  | none => (.error (.keyError "node_id"), r)
  | some nodeId =>
    (.ok (), (r.remember nodeId (.array (cfg.tags.map .string)) cfg.toJson now).track nodeId
      cfg.tags)

/-- `_known_nodes[node_id]["last_heartbeat"] = time.time()`. -/
def touch (r : WorkerRegistry K) (nodeId : String) (now : K) :
    Except FieldError Unit × WorkerRegistry K :=
  match r.known.get? nodeId with
  | none => (.error (.keyError nodeId), r)
  | some node => (.ok (), { r with known := r.known.set nodeId { node with lastHeartbeat := now } })

/-- `send_heartbeat`, on the registry. -/
def sendHeartbeat (now : K) (r : WorkerRegistry K) (nodeId : String) :
    Except FieldError Unit × WorkerRegistry K :=
  if nodeId ∈ r.known.keys then r.touch nodeId now else (.ok (), r)

/-! ## Pruning -/

/-- The deposit on a pruned worker. -/
def pruneTrace : Trace K := ⟨999.0, 0, false, 0, 0⟩

/-- `await memory_field.deposit_trace(node_id, ...)` of `prune_unhealthy_workers`. -/
def punish (r : WorkerRegistry K) (nodeId : String) : Except FieldError Unit × WorkerRegistry K :=
  let deposited := r.field.depositTrace nodeId pruneTrace
  (deposited.1, { r with field := deposited.2 })

omit [Field K] [LinearOrder K] in
/-- `del _known_nodes[node_id]`. -/
def forget (r : WorkerRegistry K) (nodeId : String) : Except FieldError Unit × WorkerRegistry K :=
  if nodeId ∈ r.known.keys then (.ok (), { r with known := r.known.erase nodeId })
  else (.error (.keyError nodeId), r)

/-- The loop of `prune_unhealthy_workers`; an exception leaves what is done. -/
def pruneNodes (alive : String → Bool) :
    List String → WorkerRegistry K → Except FieldError Unit × WorkerRegistry K
  | [], r => (.ok (), r)
  | nodeId :: rest, r =>
    if alive nodeId then pruneNodes alive rest r
    else
      match r.punish nodeId with
      | (.error e, r) => (.error e, r)
      | (.ok (), r) =>
        match r.forget nodeId with
        | (.error e, r) => (.error e, r)
        | (.ok (), r) => pruneNodes alive rest r

/-- `prune_unhealthy_workers`, over the nodes known at its start; `alive` says whose heartbeat key
exists when it is asked for. -/
def pruneUnhealthyWorkers (alive : String → Bool) (r : WorkerRegistry K) :
    Except FieldError Unit × WorkerRegistry K :=
  pruneNodes alive r.known.keys r

/-! ## What the methods do to the field -/

omit [Field K] [LinearOrder K] in
@[simp] theorem field_remember (r : WorkerRegistry K) (n : String) (tags config : Json) (now : K) :
    (r.remember n tags config now).field = r.field := rfl

omit [LinearOrder K] in
/-- Tracking a node adds its row if it has none. -/
theorem track_spec {r : WorkerRegistry K} (h : r.field.Consistent) (n : String)
    (tags : List String) :
    (r.track n tags).field.Consistent ∧
      (∀ m, m ∈ (r.track n tags).field.nodeIds ↔ m = n ∨ m ∈ r.field.nodeIds) ∧
      (r.track n tags).known = r.known := by
  by_cases hn : n ∈ r.field.nodeIds
  · have heq : r.track n tags = r := if_pos hn
    rw [heq]
    exact ⟨h, fun m => ⟨Or.inr, by rintro (rfl | hm) <;> assumption⟩, rfl⟩
  · have heq : r.track n tags = { r with field := r.field.addNode n tags } := if_neg hn
    rw [heq]
    exact ⟨(h.addNode n tags).1, h.mem_addNode n tags, rfl⟩

omit [Field K] [LinearOrder K] in
/-- A heartbeat changes no id. -/
theorem touch_spec (r : WorkerRegistry K) (n : String) (now : K) :
    (r.touch n now).2.field = r.field ∧
      (∀ m, m ∈ (r.touch n now).2.known.keys ↔ m ∈ r.known.keys) ∧
      (n ∈ r.known.keys → (r.touch n now).1 = .ok ()) := by
  unfold touch
  split
  · rename_i hn
    exact ⟨rfl, fun m => Iff.rfl, fun h => by simp [Dict.mem_keys_iff, hn] at h⟩
  · rename_i node hn
    have hmem : n ∈ r.known.keys := (Dict.mem_keys_iff _ _).mpr (by simp [hn])
    refine ⟨rfl, fun m => ?_, fun _ => rfl⟩
    simp only [Dict.mem_keys_set, or_iff_right_iff_imp]
    rintro rfl
    exact hmem

omit [Field K] [LinearOrder K] in
theorem forget_spec (r : WorkerRegistry K) (n : String) :
    (r.forget n).2.field = r.field ∧
      (∀ m, m ∈ (r.forget n).2.known.keys ↔ m ≠ n ∧ m ∈ r.known.keys) ∧
      (n ∈ r.known.keys → (r.forget n).1 = .ok ()) := by
  unfold forget
  split
  · exact ⟨rfl, fun m => Dict.mem_keys_erase, fun _ => rfl⟩
  · rename_i hn
    refine ⟨rfl, fun m => ?_, fun h => absurd h hn⟩
    simp only [iff_and_self]
    rintro hm rfl
    exact hn hm

/-- Pruning rewrites rows in place. -/
theorem pruneNodes_rowsOnly (alive : String → Bool) (ids : List String) (r : WorkerRegistry K) :
    r.field.RowsOnly (pruneNodes alive ids r).2.field := by
  induction ids generalizing r with
  | nil => exact .refl _
  | cons n ids ih =>
    have hpunish : r.field.RowsOnly (r.punish n).2.field := r.field.depositTrace_rowsOnly n _
    have hforget : ∀ s : WorkerRegistry K, (s.forget n).2.field = s.field := fun s =>
      (s.forget_spec n).1
    unfold pruneNodes
    split
    · exact ih r
    · split
      · rename_i s hs
        simpa [hs] using hpunish
      · rename_i s hs
        have hs' : r.field.RowsOnly s.field := by simpa [hs] using hpunish
        split
        · rename_i t ht
          have := hforget s
          rw [ht] at this
          exact this ▸ hs'
        · rename_i t ht
          have := hforget s
          rw [ht] at this
          exact (this ▸ hs').trans (ih t)

theorem pruneUnhealthyWorkers_rowsOnly (alive : String → Bool) (r : WorkerRegistry K) :
    r.field.RowsOnly (r.pruneUnhealthyWorkers alive).2.field :=
  pruneNodes_rowsOnly alive r.known.keys r

end WorkerRegistry

end StigmergicMesh
