import StigmergicMesh.Library.Numeric
import StigmergicMesh.Field.Row

/-!
# Node hashes and the deposit script

The keyspace shared by the replicas: for every node a hash with the fields V, L, S, C and ts, any
of which can be missing. The script of `deposit_trace` runs atomically on one hash. Values are
exact numbers; their renderings as strings are left out.
-/

namespace StigmergicMesh.Redis

/-- The hash `stigmergic:node:<id>`; the hash with no field is the absent one. -/
structure NodeHash (K : Type*) where
  V : Option K
  L : Option K
  S : Option K
  C : Option K
  ts : Option K

abbrev Store (K : Type*) := String → Option (NodeHash K)

variable {K : Type*}

/-! ## Commands -/

def NodeHash.empty : NodeHash K := ⟨none, none, none, none, none⟩

/-- The four traces as stored, without the timestamp. -/
def NodeHash.traces (h : NodeHash K) : Traces K := ⟨h.V, h.L, h.S, h.C⟩

/-- `HSET` of the fields that `updates` has. -/
def NodeHash.hset (h updates : NodeHash K) : NodeHash K where
  V := updates.V.or h.V
  L := updates.L.or h.L
  S := updates.S.or h.S
  C := updates.C.or h.C
  ts := updates.ts.or h.ts

/-- A hash that holds all four traces and a timestamp. -/
def NodeHash.ofRow (r : Row K) (ts : K) : NodeHash K :=
  ⟨some r.V, some r.L, some r.S, some r.C, some ts⟩

/-- `_key`. -/
def nodeKey (nodeId : String) : String := "stigmergic:node:" ++ nodeId

namespace Store

def hgetall (s : Store K) (key : String) : NodeHash K := (s key).getD NodeHash.empty

def hset (s : Store K) (key : String) (updates : NodeHash K) : Store K :=
  Function.update s key (some ((s.hgetall key).hset updates))

def delete (s : Store K) (key : String) : Store K := Function.update s key none

/-- A pipeline of `HSET`s, one per node id. -/
def hsetAll (s : Store K) (mappings : List (String × NodeHash K)) : Store K :=
  mappings.foldl (fun s m => s.hset (nodeKey m.1) m.2) s

end Store

@[simp] theorem nodeKey_inj {m n : String} : nodeKey m = nodeKey n ↔ m = n :=
  String.append_right_inj _

@[simp] theorem NodeHash.ts_ofRow (r : Row K) (ts : K) : (NodeHash.ofRow r ts).ts = some ts := rfl

@[simp] theorem NodeHash.traces_ofRow (r : Row K) (ts : K) :
    (NodeHash.ofRow r ts).traces = r.traces := rfl

@[simp] theorem NodeHash.hset_ofRow (h : NodeHash K) (r : Row K) (ts : K) :
    h.hset (NodeHash.ofRow r ts) = NodeHash.ofRow r ts := rfl

theorem NodeHash.hset_hset_self (h u : NodeHash K) : (h.hset u).hset u = h.hset u := by
  have dup : ∀ {x y : Option K}, x.or (x.or y) = x.or y := fun {x y} => by cases x <;> rfl
  simp [NodeHash.hset, dup]

/-- A pipeline that sets each listed node to a mapping of its own touches those nodes only. -/
theorem Store.hsetAll_apply (s : Store K) (ids : List String) (u : String → NodeHash K)
    (k : String) :
    s.hsetAll (ids.map (fun n => (n, u n))) k =
      match ids.find? (fun n => nodeKey n = k) with
      | none => s k
      | some n => some ((s.hgetall k).hset (u n)) := by
  induction ids generalizing s with
  | nil => rfl
  | cons m ids ih =>
    have hstep : s.hsetAll ((m :: ids).map fun n => (n, u n)) =
        (s.hset (nodeKey m) (u m)).hsetAll (ids.map fun n => (n, u n)) := rfl
    rw [hstep, ih]
    by_cases hk : nodeKey m = k
    · subst hk
      -- A repeated id writes the same mapping again.
      cases hf : ids.find? (fun n => nodeKey n = nodeKey m) with
      | none => simp [Store.hset]
      | some n =>
        obtain rfl : n = m := by simpa using List.find?_some hf
        simp [Store.hset, Store.hgetall, NodeHash.hset_hset_self]
    · have hother : (s.hset (nodeKey m) (u m)) k = s k := by
        simp [Store.hset, Function.update_of_ne (Ne.symm hk)]
      simp [hk, Store.hgetall, hother]

/-! ## Reading rows -/

variable [Field K]

/-- `float(raw.get(b"V", 1.0) or 1.0)` and so on: a missing field reads as its baseline. -/
def NodeHash.row (h : NodeHash K) : Row K :=
  ⟨h.V.getD 1, h.L.getD 0.1, h.S.getD 0, h.C.getD 1⟩

@[simp] theorem NodeHash.row_ofRow (r : Row K) (ts : K) : (NodeHash.ofRow r ts).row = r := rfl

/-! ## The deposit script -/

variable [LinearOrder K]

/-- `ARGV` of the deposit script. -/
structure ScriptArgs (K : Type*) where
  decayRate : K
  decaySuccess : Bool
  decayIntervalSec : K
  decayCapability : Bool
  successVal : K
  now : K
  latencySec : K
  saturatedLoad : K
  capabilityMatch : K

/-- `steps`: the decay intervals since the hash was last written, at least zero. -/
def ScriptArgs.steps (a : ScriptArgs K) (ts : K) : K :=
  let steps := (a.now - ts) / a.decayIntervalSec
  if steps < 0 then 0 else steps

/-- The script's clamp of `cap_match`, one side after the other. -/
def ScriptArgs.capMatch (a : ScriptArgs K) : K :=
  let c := if a.capabilityMatch < 0 then 0 else a.capabilityMatch
  if 1 < c then 1 else c

/-- `_DEPOSIT_SCRIPT`: lazy decay by `(1 - decay_rate) ^ steps`, then the deposit, then `HMSET`
of all five fields. -/
def depositScript [Transcendental K] (a : ScriptArgs K) (h : NodeHash K) : NodeHash K :=
  let V := h.V.getD 1
  let L := h.L.getD 0.1
  let C := h.C.getD 1
  let ts := h.ts.getD 0
  let factor := Transcendental.pow (1 - a.decayRate) (a.steps ts)
  let V := if a.decaySuccess then V * factor else V
  let L := L * factor
  let C := if a.decayCapability then C * factor else C
  -- The decayed S is overwritten by the load before it is used.
  NodeHash.ofRow
    { V := Row.ewma a.successVal V
      L := Row.ewma a.latencySec L
      S := a.saturatedLoad
      C := Row.ewma a.capMatch C }
    a.now

/-- The Python call clamps the capability match already. -/
theorem ScriptArgs.capMatch_clamp [IsStrictOrderedRing K] (a : ScriptArgs K) (x : K)
    (h : a.capabilityMatch = Row.clampUnit x) : a.capMatch = Row.clampUnit x := by
  have h₀ := Row.clampUnit_nonneg x
  have h₁ := Row.clampUnit_le_one x
  simp only [capMatch, h, not_lt.mpr h₀, if_false]
  rw [if_neg (not_lt.mpr h₁)]

end StigmergicMesh.Redis
