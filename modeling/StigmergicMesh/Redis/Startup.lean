import StigmergicMesh.Redis.Effects
import StigmergicMesh.Library.Run

/-!
# Replicas that start over a shared store

A cluster is a store and the client objects of its processes. A client writes the baseline row to
the hash of every node it tracks when its first method gets past its argument checks, and to the
hash of a node it adds; its own bookkeeping (`initialized`, `nodeIndex`) is all it consults.

`startup_writes` says what this writes. Learned traces survive the startups of a run exactly when
no startup meets a hash with other traces than the baseline: `startups_keep_learning_iff`.
-/

namespace StigmergicMesh.Redis

variable {K : Type*} [Field K] [LinearOrder K]

/-- The methods of a client that reach the store. -/
inductive Call (K : Type*) where
  | getStateVector
  | exportStateDict
  | depositTrace (nodeId : String) (trace : Trace K)
  | applyEvaporation (decayRate : K)
  | addNode (nodeId : String) (capabilityTags : List String)
  | removeNode (nodeId : String)
  | hydrateFromSnapshot (snapshot : Snapshot K)

namespace RedisField

/-- A method call, without its result. -/
def exec [Transcendental K] (clock : Clock K) (f : RedisField K) (s : Store K) :
    Call K → RedisField K × Store K
  | .getStateVector => (f.getStateVector clock s).2
  | .exportStateDict => (f.exportStateDict clock s).2
  | .depositTrace n t => (f.depositTrace clock s n t).2
  | .applyEvaporation rate => (f.applyEvaporation clock s rate).2
  | .addNode n tags => f.addNode clock s n tags
  | .removeNode n => f.removeNode clock s n
  | .hydrateFromSnapshot snapshot => (f.hydrateFromSnapshot Except.ok clock s snapshot).2

/-- The call gets past the checks that precede `_ensure_initialized`. -/
def ReachesInit (f : RedisField K) : Call K → Prop
  | .applyEvaporation rate => 0 ≤ rate ∧ rate < 1
  | .removeNode n => (f.nodeIndex.get? n).isSome = true
  | _ => True

/-- The part of a call that brings nodes into the store. -/
def startup (clock : Clock K) (f : RedisField K) (s : Store K) : Call K → Store K
  | .addNode n tags => (f.addNode clock s n tags).2
  | _ => (f.ensureInitialized clock.initTs s).2

/-- The nodes whose hashes the startup part of a call writes. -/
def newcomers (f : RedisField K) (c : Call K) : List String :=
  (if f.initialized then [] else f.nodeIds) ++
    match c with
    | .addNode n _ => if (f.nodeIndex.get? n).isSome then [] else [n]
    | _ => []

end RedisField

/-- The client objects by process number, over one store. -/
structure Cluster (K : Type*) where
  client : Nat → Option (RedisField K)
  store : Store K

inductive ClusterEvent (K : Type*) where
  | construct (process : Nat) (nodeIds : List String) (saturationScale : K)
      (decay : Row.DecayFlags) (decayRate decayIntervalSec : K)
  | call (process : Nat) (clock : Clock K) (c : Call K)

namespace Cluster

/-- No process has started and the store is empty. -/
def start : Cluster K := ⟨fun _ => none, fun _ => none⟩

/-- A process constructs its client, in place of an earlier one if it restarted, or calls it. -/
def step [Transcendental K] (x : Cluster K) : ClusterEvent K → Option (Cluster K)
  | .construct i nodeIds scale decay rate interval =>
    some { x with
      client := Function.update x.client i (some (.new nodeIds scale decay rate interval)) }
  | .call i clock c =>
    match x.client i with
    | none => none
    | some f =>
      let (f, s) := f.exec clock x.store c
      some ⟨Function.update x.client i (some f), s⟩

/-- What starting up may do to a store: stored traces stay, and of the nodes without a hash those
in `ids` receive the baseline row. -/
def OnlyFillsGaps (ids : List String) (s s' : Store K) : Prop :=
  ∀ n, match s (nodeKey n) with
    | some h => ∃ h', s' (nodeKey n) = some h' ∧ h'.traces = h.traces
    | none =>
      if n ∈ ids then ∃ ts, s' (nodeKey n) = some (NodeHash.ofRow Row.defaultState ts)
      else s' (nodeKey n) = none

/-- The startup part of a call keeps what the store has learned. -/
def KeepsLearning (x : Cluster K) : ClusterEvent K → Prop
  | .construct .. => True
  | .call i clock c => ∀ f, x.client i = some f → f.ReachesInit c →
    OnlyFillsGaps (f.newcomers c) x.store (f.startup clock x.store c)

/-- The hashes that already exist for the newcomers of a call hold the baseline traces. -/
def NothingLearned (x : Cluster K) : ClusterEvent K → Prop
  | .construct .. => True
  | .call i _ c => ∀ f, x.client i = some f → f.ReachesInit c →
    ∀ n ∈ f.newcomers c, ∀ h, x.store (nodeKey n) = some h →
      h.traces = (Row.defaultState : Row K).traces

end Cluster

/-! ## One startup -/

namespace RedisField

/-- The nodes in `ids` hold the baseline row, the hashes of the others are as they were. -/
def WritesBaselines (ids : List String) (s s' : Store K) : Prop :=
  ∀ n, (n ∈ ids → ∃ ts, s' (nodeKey n) = some (NodeHash.ofRow Row.defaultState ts)) ∧
    (n ∉ ids → s' (nodeKey n) = s (nodeKey n))

omit [LinearOrder K] in
theorem nodeIndex_ensureInitialized (ts : String → K) (f : RedisField K) (s : Store K) :
    (f.ensureInitialized ts s).1.nodeIndex = f.nodeIndex := by
  simp only [ensureInitialized]
  split <;> rfl

omit [LinearOrder K] in
theorem ensureInitialized_writes (ts : String → K) (f : RedisField K) (s : Store K) :
    WritesBaselines (if f.initialized then [] else f.nodeIds) s (f.ensureInitialized ts s).2 := by
  intro n
  cases hf : f.initialized with
  | true => simp [ensureInitialized, hf]
  | false =>
    simp only [ensureInitialized, hf, Bool.false_eq_true, if_false, writeBaselines_nodeKey]
    exact ⟨fun hn => ⟨ts n, if_pos hn⟩, fun hn => if_neg hn⟩

omit [LinearOrder K] in
theorem startup_writes (clock : Clock K) (f : RedisField K) (s : Store K) (c : Call K) :
    WritesBaselines (f.newcomers c) s (f.startup clock s c) := by
  have hinit := f.ensureInitialized_writes clock.initTs s
  cases c with
  | addNode m tags =>
    simp only [startup, addNode, newcomers, nodeIndex_ensureInitialized]
    cases hm : f.nodeIndex.get? m with
    | some i => simpa using hinit
    | none =>
      intro n
      simp only [Store.hset_nodeKey, NodeHash.hset_ofRow, Option.isSome_none, Bool.false_eq_true,
        if_false, List.mem_append, List.mem_singleton]
      by_cases hn : n = m
      · simp [hn]
      · simpa [hn] using hinit n
  | _ => simpa [startup, newcomers] using hinit

omit [LinearOrder K] in
/-- What a startup writes keeps the store's traces exactly if it writes what was there. -/
theorem WritesBaselines.onlyFillsGaps_iff {ids : List String} {s s' : Store K}
    (h : WritesBaselines ids s s') :
    Cluster.OnlyFillsGaps ids s s' ↔
      ∀ n ∈ ids, ∀ hash, s (nodeKey n) = some hash →
        hash.traces = (Row.defaultState : Row K).traces := by
  constructor
  · intro hkeep n hn hash hs
    obtain ⟨ts, hts⟩ := (h n).1 hn
    obtain ⟨h', hh', htraces⟩ : ∃ h', s' (nodeKey n) = some h' ∧ h'.traces = hash.traces := by
      simpa only [hs] using hkeep n
    rw [← htraces, Option.some.inj (hh'.symm.trans hts), NodeHash.traces_ofRow]
  · intro hbase n
    cases hs : s (nodeKey n) with
    | some hash =>
      by_cases hn : n ∈ ids
      · obtain ⟨ts, hts⟩ := (h n).1 hn
        exact ⟨_, hts, (hbase n hn hash hs).symm ▸ NodeHash.traces_ofRow _ ts⟩
      · exact ⟨hash, ((h n).2 hn).trans hs, rfl⟩
    | none =>
      by_cases hn : n ∈ ids
      · simpa only [if_pos hn] using (h n).1 hn
      · simpa only [if_neg hn] using ((h n).2 hn).trans hs

/-! ## The rest of a call -/

omit [LinearOrder K] in
theorem ensureInitialized_again (ts ts' : String → K) (f : RedisField K) (s s' : Store K) :
    (f.ensureInitialized ts s).1.ensureInitialized ts' s' = ((f.ensureInitialized ts s).1, s') := by
  apply ensureInitialized_of_initialized
  simp only [ensureInitialized]
  split
  · assumption
  · rfl

/-- After its startup part a call does what it does on the client once initialised; `add_node`
is startup altogether. -/
theorem exec_eq_startup [Transcendental K] (clock : Clock K) (f : RedisField K) (s : Store K)
    {c : Call K} (hc : f.ReachesInit c) (hadd : ∀ n tags, c ≠ .addNode n tags) :
    f.exec clock s c =
      (f.ensureInitialized clock.initTs s).1.exec clock (f.startup clock s c) c := by
  cases c with
  | addNode n tags => exact absurd rfl (hadd n tags)
  | getStateVector => simp only [exec, getStateVector, startup, ensureInitialized_again]
  | exportStateDict => simp only [exec, exportStateDict, startup, ensureInitialized_again]
  | depositTrace n t => simp only [exec, depositTrace, startup, ensureInitialized_again]
  | applyEvaporation rate =>
    have hrate : 0 ≤ rate ∧ rate < 1 := hc
    simp only [exec, applyEvaporation, startup, ensureInitialized_again, if_pos hrate]
  | removeNode n =>
    simp only [exec, removeNode, startup, ensureInitialized_again, nodeIndex_ensureInitialized]
    cases hn : f.nodeIndex.get? n with
    | none => simp [ReachesInit, hn] at hc
    | some i => rfl
  | hydrateFromSnapshot snapshot =>
    simp only [exec, hydrateFromSnapshot, startup, ensureInitialized_again]

end RedisField

/-! ## Runs of a cluster -/

namespace Cluster

/-- Along a run the startups keep what the store has learned exactly when there is nothing learned
to lose in any hash that a startup writes. -/
theorem startups_keep_learning_iff [Transcendental K] (x : Cluster K)
    (es : List (ClusterEvent K)) :
    Run.EachStep step KeepsLearning x es ↔ Run.EachStep step NothingLearned x es := by
  refine Run.EachStep.congr step fun pre e post y _ _ => ?_
  cases e with
  | construct => exact Iff.rfl
  | call i clock c =>
    exact forall₃_congr fun f _ _ => (f.startup_writes clock y.store c).onlyFillsGaps_iff

/-- A process that constructs a client with the default settings over one node. -/
noncomputable def construct (process : Nat) : ClusterEvent ℝ :=
  .construct process ["a"] 0.1 ⟨true, true⟩ 0.05 0.5

def clock : Clock ℝ := ⟨fun _ => 100.0, 100.0⟩

/-- A second process starts after the first has deposited: its first read resets the row. -/
theorem second_replica_erases :
    ¬Run.EachStep step KeepsLearning start
      [construct 0, .call 0 clock (.depositTrace "a" ⟨2, 5, false, 4, 1⟩), construct 1,
        .call 1 clock .getStateVector] := by
  intro h
  have hkeep := h [construct 0, .call 0 clock (.depositTrace "a" ⟨2, 5, false, 4, 1⟩),
    construct 1] (.call 1 clock .getStateVector) [] _ rfl rfl _ rfl trivial
  have hbase := (RedisField.startup_writes clock _ _ _).onlyFillsGaps_iff.mp hkeep "a"
    (List.mem_singleton.mpr rfl) _ rfl
  have hS := Option.some.inj (congrArg Traces.S hbase)
  norm_num [RedisField.scriptArgs, Row.defaultState, RedisField.new, Row.traces] at hS

end Cluster

end StigmergicMesh.Redis
