import StigmergicMesh.Checkpoint.Snapshot
import StigmergicMesh.Redis.Ranges

/-!
# Hydration on the two backends

Both backends write the traces of a snapshot over the rows of the nodes they track, so after it
their rows agree. They differ before and beside that: the guard of `node_metrics` raises on an
empty checkpoint, and a tracked node without traces is counted in memory but not by the Redis
client.
-/

namespace StigmergicMesh.Redis

open Checkpoint

variable {K : Type*}

section Definitions

variable [Field K]

/-- An in-memory field and an initialised client that track the same ids and hold the same rows. -/
structure Alike (f : InMemoryField K) (g : RedisField K) (s : Store K) : Prop where
  memory : f.Indexed
  initialized : g.initialized = true
  nodeIds : g.nodeIds = f.nodeIds
  nodeIndex : ∀ n, (g.nodeIndex.get? n).isSome ↔ n ∈ g.nodeIds
  rows : ∀ n ∈ f.nodeIds, f.rowOf n = some (s.rowAt n)

variable [LinearOrder K]

/-- Hydration raises on neither backend, counts the same and leaves the same state dictionary. -/
def HydratesAlike (f : InMemoryField K) (g : RedisField K) (s : Store K) (clock : Clock K)
    (snapshot : MatrixSnapshot K) : Prop :=
  ∃ count f' g' s',
    f.hydrateFromSnapshot Except.ok snapshot.toSnapshot = (.ok count, f') ∧
      g.hydrateFromSnapshot Except.ok clock s snapshot.toSnapshot = (.ok count, g', s') ∧
      ∀ clock' n, f'.exportStateDict.get? n = (g'.exportStateDict clock' s').1.get? n

end Definitions

/-! ## The pipeline of `hydrate_from_snapshot` -/

/-- A pipeline with one mapping for each of its nodes. -/
theorem Store.hsetAll_of_nodup (s : Store K) (mappings : List (String × NodeHash K))
    (hm : (mappings.map Prod.fst).Nodup) (n : String) :
    s.hsetAll mappings (nodeKey n) =
      match mappings.find? (fun m => m.1 = n) with
      | none => s (nodeKey n)
      | some m => some ((s.hgetall (nodeKey n)).hset m.2) := by
  induction mappings generalizing s with
  | nil => rfl
  | cons m mappings ih =>
    obtain ⟨hnew, hm⟩ := List.nodup_cons.mp hm
    have hstep : s.hsetAll (m :: mappings) = (s.hset (nodeKey m.1) m.2).hsetAll mappings := rfl
    rw [hstep, ih _ hm]
    by_cases hn : m.1 = n
    · subst hn
      have hlater : mappings.find? (fun p => p.1 = m.1) = none := by
        simp only [List.find?_eq_none, decide_eq_true_eq]
        exact fun p hp he => hnew (List.mem_map.mpr ⟨p, hp, he⟩)
      rw [hlater]
      simp [Store.hset]
    · have hother : (s.hset (nodeKey m.1) m.2) (nodeKey n) = s (nodeKey n) := by
        rw [Store.hset_nodeKey, if_neg (Ne.symm hn)]
      simp only [List.find?_cons, hn, decide_false, Store.hgetall, hother]

/-- The traces of a mapping over a hash are those traces over its row. -/
theorem NodeHash.row_hset_mappingOf [Field K] (h : NodeHash K) (t : Traces K) (ts : K) :
    (h.hset (mappingOf t ts)).row = h.row.overlay t := by
  obtain ⟨V, L, S, C⟩ := t
  cases V <;> cases L <;> cases S <;> cases C <;> rfl

namespace RedisField

/-- Without a trace there is nothing to overlay. -/
theorem overlay_of_not_hasTrace {t : Traces K} (ht : hasTrace t = false) (r : Row K) :
    r.overlay t = r := by
  obtain ⟨V, L, S, C⟩ := t
  simp only [hasTrace, Bool.or_eq_false_iff, Option.isSome_eq_false_iff,
    Option.isNone_iff_eq_none] at ht
  obtain ⟨⟨⟨rfl, rfl⟩, rfl⟩, rfl⟩ := ht
  rfl

/-- The entries that the loop queues on its pipeline. -/
def queued (f : RedisField K) (entries : List (String × Traces K)) : List (String × Traces K) :=
  (entries.filter (fun e => (f.nodeIndex.get? e.1).isSome)).filter (fun e => hasTrace e.2)

theorem hydrateMappings_ok (f : RedisField K) (entries : List (String × Traces K)) :
    hydrateMappings Except.ok f entries = .ok (f.queued entries) := by
  induction entries with
  | nil => rfl
  | cons e entries ih =>
    obtain ⟨n, t⟩ := e
    cases hi : f.nodeIndex.get? n with
    | none => simp [hydrateMappings, queued, hi, ih]
    | some i =>
      simp only [hydrateMappings, hi, convertTraces_ok, ih, bind, Except.bind, pure, Except.pure]
      cases ht : hasTrace t <;> simp [queued, hi, ht]

variable [Field K]

/-- `hydrate_from_snapshot` of an initialised client, given node metrics. -/
theorem hydrateFromSnapshot_of_initialized {f : RedisField K} (hf : f.initialized = true)
    (clock : Clock K) (s : Store K) {snapshot : Snapshot K} {m : Dict String (Traces K)}
    (hm : snapshot.nodeMetrics = .ok m) :
    f.hydrateFromSnapshot Except.ok clock s snapshot =
      (.ok (f.queued m.entries).length, f,
        s.hsetAll ((f.queued m.entries).map (fun e => (e.1, mappingOf e.2 clock.now)))) := by
  simp only [hydrateFromSnapshot, ensureInitialized_of_initialized hf, hm, hydrateMappings_ok]
  rfl

/-- The row of every tracked node after the pipeline: the traces of its entry over its row. -/
theorem rowAt_hsetAll_queued (f : RedisField K) (s : Store K) (m : Dict String (Traces K))
    (now : K) {n : String} (hn : (f.nodeIndex.get? n).isSome) :
    (s.hsetAll ((f.queued m.entries).map (fun e => (e.1, mappingOf e.2 now)))).rowAt n =
      match m.get? n with
      | none => s.rowAt n
      | some t => (s.rowAt n).overlay t := by
  set mappings := (f.queued m.entries).map (fun e => (e.1, mappingOf e.2 now)) with hmappings
  have hnodup : (mappings.map Prod.fst).Nodup := by
    rw [hmappings, List.map_map]
    exact m.nodupKeys.sublist ((List.filter_sublist.trans List.filter_sublist).map _)
  rw [Store.rowAt, Store.hgetall, Store.hsetAll_of_nodup s mappings hnodup]
  cases hfind : mappings.find? (fun p => p.1 = n) with
  | some p =>
    obtain ⟨e, he, rfl⟩ := List.mem_map.mp (List.mem_of_find?_eq_some hfind)
    obtain rfl : e.1 = n := by simpa using List.find?_some hfind
    have hentry : e ∈ m.entries := List.mem_of_mem_filter (List.mem_of_mem_filter he)
    have hget := (m.get?_eq_some_iff e.1 e.2).mpr hentry
    simp only [hget, Option.getD_some, NodeHash.row_hset_mappingOf]
    rfl
  | none =>
    cases hget : m.get? n with
    | none => rfl
    | some t =>
      -- The entry was not queued, so it has no trace.
      have ht : hasTrace t = false := by
        rw [← Bool.not_eq_true]
        intro ht
        have hq : (n, t) ∈ f.queued m.entries :=
          List.mem_filter.mpr
            ⟨List.mem_filter.mpr ⟨(m.get?_eq_some_iff n t).mp hget, hn⟩, ht⟩
        have := List.find?_eq_none.mp hfind _ (List.mem_map_of_mem hq)
        simp at this
      exact (overlay_of_not_hasTrace ht (s.rowAt n)).symm

end RedisField

/-! ## Both backends -/

variable [Field K] [LinearOrder K]

namespace Alike

variable {f : InMemoryField K} {g : RedisField K} {s : Store K}

omit [LinearOrder K] in
theorem tracked (h : Alike f g s) (n : String) : (g.nodeIndex.get? n).isSome ↔ n ∈ f.nodeIds := by
  rw [h.nodeIndex, h.nodeIds]

omit [LinearOrder K] in
/-- Given node metrics, the rows of the two backends agree after hydration as before. -/
theorem hydrated (h : Alike f g s) (clock : Clock K) {snapshot : Snapshot K}
    {m : Dict String (Traces K)} (hm : snapshot.nodeMetrics = .ok m) :
    Alike (f.hydrateFromSnapshot Except.ok snapshot).2
      (g.hydrateFromSnapshot Except.ok clock s snapshot).2.1
      (g.hydrateFromSnapshot Except.ok clock s snapshot).2.2 := by
  obtain ⟨-, hrow⟩ := h.memory.hydrateFromSnapshot hm
  have hrowsOnly := f.hydrateFromSnapshot_rowsOnly Except.ok snapshot
  rw [g.hydrateFromSnapshot_of_initialized h.initialized clock s hm]
  refine ⟨hrowsOnly.indexed h.memory, h.initialized, h.nodeIds.trans hrowsOnly.nodeIds.symm,
    h.nodeIndex, fun n hn => ?_⟩
  rw [hrowsOnly.nodeIds] at hn
  rw [hrow n, h.rows n hn, g.rowAt_hsetAll_queued s m clock.now ((h.tracked n).mpr hn)]
  cases m.get? n <;> rfl

/-- Backends that are alike export the same state dictionary. -/
theorem exportStateDict (h : Alike f g s) (clock : Clock K) (n : String) :
    f.exportStateDict.get? n = (g.exportStateDict clock s).1.get? n := by
  rw [h.memory.get?_exportStateDict, RedisField.get?_exportStateDict h.initialized, h.nodeIds]
  by_cases hn : n ∈ f.nodeIds
  · rw [if_pos hn, h.rows n hn]
  · rw [if_neg hn, ← Option.not_isSome_iff_eq_none, h.memory.rowOf_isSome]
    exact hn

end Alike

omit [LinearOrder K] in
/-- The Redis client counts the entries of tracked nodes that have a trace. -/
theorem queued_length_eq_iff {f : InMemoryField K} {g : RedisField K} {s : Store K}
    (h : Alike f g s) (m : Dict String (Traces K)) :
    (m.keys.filter (· ∈ f.nodeIds)).length = (g.queued m.entries).length ↔
      ∀ e ∈ m.entries, e.1 ∈ f.nodeIds → RedisField.hasTrace e.2 = true := by
  have htracked : m.entries.filter (fun e => (g.nodeIndex.get? e.1).isSome) =
      m.entries.filter (fun e => e.1 ∈ f.nodeIds) := by
    apply List.filter_congr
    intro e _
    rw [Bool.eq_iff_iff, h.tracked, decide_eq_true_eq]
  have hkeys : (m.keys.filter (· ∈ f.nodeIds)).length =
      (m.entries.filter (fun e => e.1 ∈ f.nodeIds)).length := by
    rw [Dict.keys, List.filter_map, List.length_map]
    rfl
  rw [hkeys, RedisField.queued, htracked, eq_comm, List.length_filter_eq_length_iff]
  simp only [List.mem_filter, decide_eq_true_eq, and_imp]

/-- Hydration from a checkpoint agrees on the two backends exactly if the checkpoint has node
metrics and every entry of a tracked node has a trace. -/
theorem hydratesAlike_iff {f : InMemoryField K} {g : RedisField K} {s : Store K}
    (h : Alike f g s) (clock : Clock K) (snapshot : MatrixSnapshot K) :
    HydratesAlike f g s clock snapshot ↔
      snapshot.nodeMetrics.entries ≠ [] ∧ ∀ e ∈ snapshot.nodeMetrics.entries, e.1 ∈ f.nodeIds →
        RedisField.hasTrace (tracesOf e.2) = true := by
  set m := snapshot.nodeMetrics.mapValues tracesOf with hmetrics
  have hentries : m.entries = snapshot.nodeMetrics.entries.map (fun p => (p.1, tracesOf p.2)) := rfl
  by_cases hempty : snapshot.nodeMetrics.entries = []
  · -- Both guards of `node_metrics` raise.
    have hraise : snapshot.toSnapshot.nodeMetrics = .error .attributeError := by
      show (if m.entries.isEmpty then _ else _) = _
      rw [hentries, hempty]
      rfl
    refine iff_of_false ?_ (fun hne => hne.1 hempty)
    rintro ⟨count, f', -, -, hf, -⟩
    simp [InMemoryField.hydrateFromSnapshot, hraise] at hf
  · have hm : snapshot.toSnapshot.nodeMetrics = .ok m := by
      show (if m.entries.isEmpty then _ else _) = _
      rw [hentries, if_neg (by simpa using hempty)]
    obtain ⟨hcount, -⟩ := h.memory.hydrateFromSnapshot hm
    have halike := h.hydrated clock hm
    have hredis := g.hydrateFromSnapshot_of_initialized h.initialized clock s hm
    have htraces : (∀ e ∈ snapshot.nodeMetrics.entries, e.1 ∈ f.nodeIds →
        RedisField.hasTrace (tracesOf e.2) = true) ↔
        (m.keys.filter (· ∈ f.nodeIds)).length = (g.queued m.entries).length := by
      rw [queued_length_eq_iff h, hentries]
      simp only [List.forall_mem_map]
    rw [htraces, and_iff_right hempty]
    constructor
    · rintro ⟨count, f', g', s', hf, hg, -⟩
      rw [hf] at hcount
      rw [hredis, Prod.mk.injEq] at hg
      exact Except.ok.inj (hcount.symm.trans hg.1.symm)
    · intro heq
      refine ⟨_, _, _, _, Prod.ext hcount rfl, ?_, fun clock' n => halike.exportStateDict clock' n⟩
      rw [heq, hredis]

/-! ## Node "a" on both backends -/

def memoryOfA : InMemoryField ℚ :=
  ⟨["a"], Dict.enumerate ["a"], [Row.defaultState], 0.1, ⟨true, true⟩⟩

def clientOfA : RedisField ℚ :=
  { RedisField.new ["a"] 0.1 ⟨true, true⟩ 0.05 0.5 with initialized := true }

def storeOfA : Store ℚ := RedisField.writeBaselines ["a"] (fun _ => 100) (fun _ => none)

/-- A checkpoint with the given traces of node "a". -/
def checkpointOfA (metrics : List (Dict String ℚ)) : MatrixSnapshot ℚ :=
  ⟨100, "1.0", Dict.ofList (metrics.map (fun t => ("a", t))), 0, 7⟩

theorem alike_ofA : Alike memoryOfA clientOfA storeOfA where
  memory := ⟨fun _ => rfl, rfl⟩
  initialized := rfl
  nodeIds := rfl
  nodeIndex n := Dict.isSome_enumerate
  rows n hn := by
    obtain rfl := List.mem_singleton.mp hn
    rfl

theorem hydratesAlike_iff_ofA :
    HydratesAlike memoryOfA clientOfA storeOfA ⟨fun _ => 100, 101⟩
      (checkpointOfA [⟨[("V", 0.5)], by simp⟩]) := by
  refine (hydratesAlike_iff alike_ofA _ _).mpr ⟨List.cons_ne_nil _ _, ?_⟩
  intro e he _
  obtain rfl := List.mem_singleton.mp he
  rfl

/-- The empty checkpoint raises on both backends; a checkpoint without traces for the node is
counted by one of them. -/
theorem hydration_disagrees :
    Alike memoryOfA clientOfA storeOfA ∧
      (memoryOfA.hydrateFromSnapshot Except.ok (checkpointOfA []).toSnapshot).1 =
        .error .attributeError ∧
      (memoryOfA.hydrateFromSnapshot Except.ok (checkpointOfA [Dict.empty]).toSnapshot).1 = .ok 1 ∧
      (clientOfA.hydrateFromSnapshot Except.ok ⟨fun _ => 100, 101⟩ storeOfA
        (checkpointOfA [Dict.empty]).toSnapshot).1 = .ok 0 ∧
      ¬ HydratesAlike memoryOfA clientOfA storeOfA ⟨fun _ => 100, 101⟩ (checkpointOfA []) ∧
      ¬ HydratesAlike memoryOfA clientOfA storeOfA ⟨fun _ => 100, 101⟩
        (checkpointOfA [Dict.empty]) := by
  refine ⟨alike_ofA, rfl, rfl, rfl, ?_, ?_⟩
  · rintro ⟨count, f', -, -, hf, -⟩
    cases congrArg Prod.fst hf
  · rintro ⟨count, f', g', s', hf, hg, -⟩
    have hf : (Except.ok 1 : Except FieldError Nat) = .ok count := congrArg Prod.fst hf
    have hg : (Except.ok 0 : Except FieldError Nat) = .ok count := congrArg Prod.fst hg
    cases hf
    cases hg

end StigmergicMesh.Redis
