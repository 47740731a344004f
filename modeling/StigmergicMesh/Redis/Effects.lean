import StigmergicMesh.Redis.Field

/-!
# What the methods do to the stored rows

A node's hash is seen by every reader as a row (`rowAt`). The lemmas here say what one pipeline or
script does to the hash of each node, and what a method of an initialised client is: a deposit is
its script, an evaporation its two pipelines.
-/

namespace StigmergicMesh.Redis

variable {K : Type*}

/-- A pipeline of `HSET`s at the hash of one node. -/
theorem Store.hsetAll_nodeKey (s : Store K) (ids : List String) (u : String → NodeHash K)
    (n : String) :
    s.hsetAll (ids.map (fun m => (m, u m))) (nodeKey n) =
      if n ∈ ids then some ((s.hgetall (nodeKey n)).hset (u n)) else s (nodeKey n) := by
  rw [Store.hsetAll_apply]
  by_cases hn : n ∈ ids
  · cases hf : ids.find? (fun m => nodeKey m = nodeKey n) with
    | none => simpa using List.find?_eq_none.mp hf n hn
    | some m =>
      obtain rfl : m = n := by simpa using List.find?_some hf
      rw [if_pos hn]
  · have hf : ids.find? (fun m => nodeKey m = nodeKey n) = none := by
      rw [List.find?_eq_none]
      rintro m hm he
      obtain rfl : m = n := by simpa using he
      exact hn hm
    rw [hf, if_neg hn]

theorem Store.hset_nodeKey (s : Store K) (m n : String) (u : NodeHash K) :
    s.hset (nodeKey m) u (nodeKey n) =
      if n = m then some ((s.hgetall (nodeKey m)).hset u) else s (nodeKey n) := by
  simp [Store.hset, Function.update_apply]

variable [Field K]

/-- The row a reader of the hash of node `n` gets. -/
def Store.rowAt (s : Store K) (n : String) : Row K := (s.hgetall (nodeKey n)).row

theorem Store.rowAt_of_eq {s t : Store K} {n : String} (h : s (nodeKey n) = t (nodeKey n)) :
    s.rowAt n = t.rowAt n := by
  simp [rowAt, hgetall, h]

namespace RedisField

/-! ## Pipelines -/

theorem writeBaselines_nodeKey (ids : List String) (ts : String → K) (s : Store K) (n : String) :
    writeBaselines ids ts s (nodeKey n) =
      if n ∈ ids then some (NodeHash.ofRow Row.defaultState (ts n)) else s (nodeKey n) := by
  rw [writeBaselines, Store.hsetAll_nodeKey]
  simp

/-- Replies that come from one reading are matched with the nodes they were read for. -/
theorem writeBack_map (ids : List String) (flags : Row.DecayFlags) (factor now : K)
    (g : String → NodeHash K) (s : Store K) :
    writeBack ids flags factor now (ids.map g) s =
      s.hsetAll (ids.map (fun n => (n, evaporationUpdates flags factor now (g n)))) := by
  have hzip : ids.zip (ids.map g) = ids.map (fun n => (n, g n)) := by
    induction ids with
    | nil => rfl
    | cons n ids ih => simp [ih]
  simp [writeBack, hzip, List.map_map, Function.comp_def]

/-- The two pipelines with nothing in between. -/
theorem writeBack_readAll (ids : List String) (flags : Row.DecayFlags) (factor now : K)
    (s : Store K) (n : String) :
    writeBack ids flags factor now (readAll ids s) s (nodeKey n) =
      if n ∈ ids then
        some ((s.hgetall (nodeKey n)).hset
          (evaporationUpdates flags factor now (s.hgetall (nodeKey n))))
      else s (nodeKey n) := by
  rw [readAll, writeBack_map, Store.hsetAll_nodeKey]

theorem row_hset_evaporationUpdates (flags : Row.DecayFlags) (factor now : K) (h : NodeHash K) :
    (h.hset (evaporationUpdates flags factor now h)).row = h.row.scale flags factor := by
  rcases flags with ⟨_ | _, _ | _⟩ <;>
    simp [NodeHash.hset, evaporationUpdates, NodeHash.row, Row.scale]

theorem rowAt_writeBack_readAll (ids : List String) (flags : Row.DecayFlags) (factor now : K)
    (s : Store K) (n : String) :
    (writeBack ids flags factor now (readAll ids s) s).rowAt n =
      if n ∈ ids then (s.rowAt n).scale flags factor else s.rowAt n := by
  by_cases hn : n ∈ ids
  · rw [if_pos hn, Store.rowAt, Store.hgetall, writeBack_readAll, if_pos hn]
    exact row_hset_evaporationUpdates flags factor now _
  · rw [if_neg hn]
    exact Store.rowAt_of_eq (by rw [writeBack_readAll, if_neg hn])

/-! ## Methods of an initialised client -/

theorem ensureInitialized_of_initialized {f : RedisField K} (hf : f.initialized = true)
    (ts : String → K) (s : Store K) : f.ensureInitialized ts s = (f, s) := by
  simp [ensureInitialized, hf]

theorem get?_exportStateDict {f : RedisField K} (hf : f.initialized = true) (clock : Clock K)
    (s : Store K) (n : String) :
    (f.exportStateDict clock s).1.get? n = if n ∈ f.nodeIds then some (s.rowAt n) else none := by
  simp only [exportStateDict, ensureInitialized_of_initialized hf, readAll, List.map_map]
  rw [Dict.get?_ofList_zip_enumerate (by simp)]
  cases hi : (Dict.enumerate f.nodeIds).get? n with
  | none =>
    have hn : n ∉ f.nodeIds := by
      rw [← Dict.isSome_enumerate, hi]
      simp
    rw [if_neg hn]
    rfl
  | some i =>
    have hid := Dict.getElem?_of_enumerate hi
    simp [hid, List.mem_of_getElem? hid, Store.rowAt]

variable [LinearOrder K]

theorem evalDeposit_nodeKey [Transcendental K] (f : RedisField K) (now : K) (m n : String)
    (t : Trace K) (s : Store K) :
    f.evalDeposit now m t s (nodeKey n) =
      if n = m then some (depositScript (f.scriptArgs now t) (s.hgetall (nodeKey m)))
      else s (nodeKey n) := by
  by_cases hn : n = m
  · subst hn
    simp [evalDeposit]
  · simp [evalDeposit, hn]

theorem depositTrace_of_initialized [Transcendental K] {f : RedisField K}
    (hf : f.initialized = true) (clock : Clock K) (s : Store K) (n : String) (t : Trace K) :
    f.depositTrace clock s n t =
      match f.nodeIndex.get? n with
      | none => (.error (.keyError n), f, s)
      | some _ => (.ok (), f, f.evalDeposit clock.now n t s) := by
  simp only [depositTrace, ensureInitialized_of_initialized hf, indexOf]
  cases f.nodeIndex.get? n <;> rfl

theorem applyEvaporation_of_initialized {f : RedisField K} (hf : f.initialized = true)
    (clock : Clock K) (s : Store K) {rate : K} (hr : 0 ≤ rate ∧ rate < 1) :
    f.applyEvaporation clock s rate =
      (.ok (), f, writeBack f.nodeIds f.decay (1 - rate) clock.now (readAll f.nodeIds s) s) := by
  simp [applyEvaporation, hr, ensureInitialized_of_initialized hf]

theorem rowAt_S_evalDeposit [Transcendental K] (f : RedisField K) (now : K) (n : String)
    (t : Trace K) (s : Store K) :
    ((f.evalDeposit now n t s).rowAt n).S = (t.activeLoad : K) * f.saturationScale := by
  simp [Store.rowAt, Store.hgetall, evalDeposit_nodeKey, depositScript, scriptArgs]

/-! ## The script as a row update -/

/-- The lazy decay of the script: `math.pow(1.0 - decay_rate, steps)`. -/
def lazyFactor [Transcendental K] (f : RedisField K) (now : K) (h : NodeHash K) : K :=
  let steps := (now - h.ts.getD 0) / f.decayIntervalSec
  Transcendental.pow (1 - f.decayRate) (if steps < 0 then 0 else steps)

/-- The lazy factor is one when the rate is zero or no time has passed. -/
theorem lazyFactor_eq_one_iff {f : RedisField ℝ} (h₀ : 0 ≤ f.decayRate) (h₁ : f.decayRate < 1)
    (hinterval : 0 < f.decayIntervalSec) (now : ℝ) (raw : NodeHash ℝ) :
    f.lazyFactor now raw = 1 ↔ f.decayRate = 0 ∨ now ≤ raw.ts.getD 0 := by
  have hsteps : (now - raw.ts.getD 0) / f.decayIntervalSec ≤ 0 ↔ now ≤ raw.ts.getD 0 := by
    rw [div_le_iff₀ hinterval, zero_mul, sub_nonpos]
  rw [RedisField.lazyFactor, Transcendental.pow_eq_one_iff (by linarith) (by linarith)
    (by split_ifs with hneg <;> [exact le_rfl; exact not_lt.mp hneg]), ← hsteps]
  refine or_congr (by constructor <;> intro he <;> linarith) ?_
  split_ifs with hneg
  · simp [hneg.le]
  · exact ⟨le_of_eq, fun hle => le_antisymm hle (not_lt.mp hneg)⟩

variable [IsStrictOrderedRing K] [Transcendental K]

/-- The script is a scaling by the lazy factor, then the deposit of the in-memory field. -/
theorem row_depositScript (f : RedisField K) (now : K) (t : Trace K) (h : NodeHash K) :
    (depositScript (f.scriptArgs now t) h).row =
      (h.row.scale f.decay (f.lazyFactor now h)).deposit f.saturationScale t := by
  simp only [depositScript, NodeHash.row_ofRow,
    ScriptArgs.capMatch_clamp (f.scriptArgs now t) t.capabilityMatch rfl]
  rfl

theorem rowAt_evalDeposit (f : RedisField K) (now : K) (m n : String) (t : Trace K)
    (s : Store K) :
    (f.evalDeposit now m t s).rowAt n =
      if n = m then
        ((s.rowAt m).scale f.decay (f.lazyFactor now (s.hgetall (nodeKey m)))).deposit
          f.saturationScale t
      else s.rowAt n := by
  by_cases hn : n = m
  · subst hn
    rw [if_pos rfl, Store.rowAt, Store.hgetall, evalDeposit_nodeKey, if_pos rfl]
    exact row_depositScript f now t _
  · rw [if_neg hn]
    exact Store.rowAt_of_eq (by rw [evalDeposit_nodeKey, if_neg hn])

end RedisField

end StigmergicMesh.Redis
