import StigmergicMesh.Library.Commit
import StigmergicMesh.Redis.Effects

/-!
# Interleaved deposits and evaporations

Any number of initialised clients over one store. A deposit is one script; an evaporation reads
all its nodes in one round trip and writes them back in another, computed from what it read.

A write that finds the decaying traces as they were read does what an evaporation with nothing in
between does, and a run whose writes are all of this kind is serialisable. A write that finds
them changed overwrites the change: `evaporation_loses_deposit`.
-/

namespace StigmergicMesh.Redis

variable {K : Type*} [Field K] [LinearOrder K]

/-- A call `deposit_trace` on a node its client tracks. -/
structure Deposit (K : Type*) where
  client : RedisField K
  nodeId : String
  trace : Trace K
  now : K
  initialized : client.initialized = true
  known : (client.nodeIndex.get? nodeId).isSome

/-- A call `apply_evaporation` with a rate it accepts; the clock is read before the nodes are. -/
structure Evaporation (K : Type*) [Field K] [LinearOrder K] where
  client : RedisField K
  rate : K
  now : K
  initialized : client.initialized = true
  valid : 0 ≤ rate ∧ rate < 1

/-- The accesses of the two calls to the shared store. -/
def protocol [Transcendental K] :
    Commit.Protocol (Store K) (List (NodeHash K)) (Deposit K) (Evaporation K) where
  atomic d s := d.client.evalDeposit d.now d.nodeId d.trace s
  read e s := RedisField.readAll e.client.nodeIds s
  write e raws s :=
    RedisField.writeBack e.client.nodeIds e.client.decay (1 - e.rate) e.now raws s

abbrev Access (K : Type*) [Field K] [LinearOrder K] := Commit.Event (Deposit K) (Evaporation K)

abbrev Interleaved (K : Type*) [Field K] [LinearOrder K] :=
  Commit.State (Store K) (List (NodeHash K)) (Deposit K) (Evaporation K)

/-- The traces of every node are those of some serial order of the completed calls. -/
def Serialisable [Transcendental K] (s₀ : Store K) (s : Interleaved K) : Prop :=
  ∃ order, order.Perm s.done ∧ ∀ n, s.store.rowAt n = (protocol.serial s₀ order).rowAt n

/-- The traces that an evaporation changes are the same in both rows. -/
def SameDecaying (flags : Row.DecayFlags) (a b : Row K) : Prop :=
  (flags.decaySuccess = true → a.V = b.V) ∧ a.L = b.L ∧ a.S = b.S ∧
    (flags.decayCapability = true → a.C = b.C)

/-- A write finds every node's decaying traces as its call read them. -/
def WritesUnchanged (s : Interleaved K) : Access K → Prop
  | .write call => ∀ e raws, s.pending call = some (e, raws) →
    ∀ p ∈ e.client.nodeIds.zip raws, SameDecaying e.client.decay p.2.row (s.store.rowAt p.1)
  | _ => True

/-! ## The accesses are the methods -/

/-- The methods with nothing in between are the calls of the protocol. -/
theorem protocol_apply_deposit [Transcendental K] (d : Deposit K) (initTs : String → K)
    (s : Store K) :
    d.client.depositTrace ⟨initTs, d.now⟩ s d.nodeId d.trace =
      (.ok (), d.client, protocol.apply s (.atomic d)) := by
  obtain ⟨i, hi⟩ := Option.isSome_iff_exists.mp d.known
  rw [RedisField.depositTrace_of_initialized d.initialized, hi]
  rfl

theorem protocol_apply_evaporation [Transcendental K] (e : Evaporation K) (initTs : String → K)
    (s : Store K) :
    e.client.applyEvaporation ⟨initTs, e.now⟩ s e.rate =
      (.ok (), e.client, protocol.apply s (.split e)) := by
  rw [RedisField.applyEvaporation_of_initialized e.initialized _ _ e.valid]
  rfl

/-! ## Writes that find what was read -/

omit [LinearOrder K] in
theorem SameDecaying.updates_eq {flags : Row.DecayFlags} {a b : NodeHash K}
    (h : SameDecaying flags a.row b.row) (factor now : K) :
    RedisField.evaporationUpdates flags factor now a =
      RedisField.evaporationUpdates flags factor now b := by
  obtain ⟨hV, hL, hS, hC⟩ := h
  rcases flags with ⟨_ | _, _ | _⟩ <;> simp_all [RedisField.evaporationUpdates]

/-- Such a write does what it would do with a fresh reading. -/
theorem WritesUnchanged.current [Transcendental K] {s₀ : Store K} {es : List (Access K)}
    {s : Interleaved K} (hrun : Run.execAll protocol.step (.start s₀) es = some s)
    {e : Access K} (h : WritesUnchanged s e) : protocol.Current s e := by
  cases e with
  | atomic d => trivial
  | read call b => trivial
  | write call =>
    intro b raws hp
    obtain ⟨s', rfl⟩ := protocol.pending_invariant
      (Q := fun b raws => ∃ s' : Store K, raws = RedisField.readAll b.client.nodeIds s')
      (fun b s' => ⟨s', rfl⟩) hrun call b raws hp
    have hnode : ∀ n ∈ b.client.nodeIds,
        SameDecaying b.client.decay (s'.rowAt n) (s.store.rowAt n) := by
      intro n hn
      refine h b _ hp (n, s'.hgetall (nodeKey n)) ?_
      obtain ⟨i, hi⟩ := List.mem_iff_getElem?.mp hn
      exact List.mem_iff_getElem?.mpr
        ⟨i, by simp [RedisField.readAll, List.getElem?_zip_eq_some, hi]⟩
    simp only [protocol, RedisField.readAll, RedisField.writeBack_map]
    congr 1
    exact List.map_congr_left fun n hn => by rw [(hnode n hn).updates_eq]

/-- Every interleaving whose writes find the decaying traces as they were read is serialisable,
by the order in which the calls completed; every deposit is among the completed calls. -/
theorem unchanged_run_serialisable [Transcendental K] (s₀ : Store K) (es : List (Access K))
    (s : Interleaved K) (hrun : Run.execAll protocol.step (.start s₀) es = some s)
    (hsteps : Run.EachStep protocol.step WritesUnchanged (.start s₀) es) :
    Serialisable s₀ s ∧
      s.done.filterMap Commit.Op.atomic? = es.filterMap Commit.Event.atomic? := by
  refine ⟨⟨s.done, List.Perm.refl _, fun n => ?_⟩, protocol.done_atomic hrun⟩
  rw [protocol.store_eq_serial hrun]
  intro pre e post u hes hu
  exact (hsteps pre e post u hes hu).current hu

/-! ## A deposit between the two round trips -/

/-- One initialised client with the default settings, over one node. -/
noncomputable def overlapClient : RedisField ℝ :=
  { RedisField.new ["a"] 0.1 ⟨true, true⟩ 0.05 0.5 with initialized := true }

noncomputable def overlapStore : Store ℝ :=
  RedisField.writeBaselines ["a"] (fun _ => 100.0) (fun _ => none)

noncomputable def overlapDeposit : Deposit ℝ :=
  ⟨overlapClient, "a", ⟨2.0, 5, false, 4, 1⟩, 100.0, rfl, rfl⟩

noncomputable def overlapEvaporation : Evaporation ℝ :=
  ⟨overlapClient, 0.05, 100.0, rfl, by norm_num⟩

omit [LinearOrder K] in
/-- What a write leaves in S depends on the reading alone. -/
theorem rowAt_S_writeBack {ids : List String} {n : String} (hn : n ∈ ids)
    (flags : Row.DecayFlags) (factor now : K) (s' s : Store K) :
    ((RedisField.writeBack ids flags factor now (RedisField.readAll ids s') s).rowAt n).S =
      (s'.rowAt n).S * factor := by
  simp only [RedisField.readAll, RedisField.writeBack_map, Store.rowAt, Store.hgetall]
  rw [Store.hsetAll_nodeKey, if_pos hn]
  simp [NodeHash.hset, NodeHash.row, RedisField.evaporationUpdates]

/-- The evaporation reads, the deposit runs, the evaporation writes: the load that the deposit
recorded is gone, and it is gone in neither serial order. -/
theorem evaporation_loses_deposit :
    ∃ s, Run.execAll protocol.step (.start overlapStore)
        [.read 0 overlapEvaporation, .atomic overlapDeposit, .write 0] = some s ∧
      ¬ Serialisable overlapStore s := by
  refine ⟨_, rfl, ?_⟩
  rintro ⟨order, horder, hrows⟩
  have htracked : "a" ∈ overlapEvaporation.client.nodeIds := List.mem_singleton.mpr rfl
  have hinit : (overlapStore.rowAt "a").S = 0 := by
    simp [Store.rowAt, Store.hgetall, overlapStore, RedisField.writeBaselines_nodeKey,
      Row.defaultState]
  have hlost : ((protocol.serial overlapStore order).rowAt "a").S = 0 := by
    rw [← hrows "a"]
    refine (rowAt_S_writeBack htracked _ _ _ _ _).trans ?_
    exact (congrArg (· * _) hinit).trans (zero_mul _)
  have hload : ∀ s, ((protocol.atomic overlapDeposit s).rowAt "a").S = 4 * (1 / 10) := fun s =>
    (RedisField.rowAt_S_evalDeposit ..).trans
      (by norm_num [overlapDeposit, overlapClient, RedisField.new])
  rcases List.perm_pair.mp horder with rfl | rfl
  · -- The deposit first: the evaporation scales its load.
    have hscaled : (4 : ℝ) * (1 / 10) * (1 - 0.05) = 0 := by
      rw [← hload overlapStore]
      exact (rowAt_S_writeBack htracked _ _ _ _ _).symm.trans hlost
    norm_num at hscaled
  · -- The deposit last: its load stands.
    have hstands : (4 : ℝ) * (1 / 10) = 0 := (hload _).symm.trans hlost
    norm_num at hstands

/-- A deposit on a node that the evaporation does not read. -/
noncomputable def besideDeposit : Deposit ℝ :=
  ⟨{ RedisField.new ["b"] 0.1 ⟨true, true⟩ 0.05 0.5 with initialized := true }, "b",
    ⟨2.0, 5, false, 4, 1⟩, 100.0, rfl, rfl⟩

/-- It runs between the two round trips of the evaporation, and another one after them: the run is
serialisable. -/
theorem unchanged_run_serialisable_after :
    ∃ s, Run.execAll protocol.step (.start overlapStore)
        [.read 0 overlapEvaporation, .atomic besideDeposit, .write 0, .atomic overlapDeposit] =
          some s ∧
      Serialisable overlapStore s := by
  refine ⟨_, rfl, (unchanged_run_serialisable overlapStore
    [.read 0 overlapEvaporation, .atomic besideDeposit, .write 0, .atomic overlapDeposit] _
    rfl ?_).1⟩
  refine Run.EachStep.cons _ trivial rfl (Run.EachStep.cons _ trivial rfl ?_)
  refine Run.EachStep.cons _ ?_ rfl (Run.EachStep.cons _ trivial rfl (Run.eachStep_nil _))
  intro e raws hp p hmem
  obtain ⟨rfl, rfl⟩ := Prod.mk.inj (Option.some.inj hp)
  obtain rfl : p = ("a", overlapStore.hgetall (nodeKey "a")) := List.mem_singleton.mp hmem
  have hbeside : (protocol.atomic besideDeposit overlapStore).rowAt "a" = overlapStore.rowAt "a" :=
    (RedisField.rowAt_evalDeposit ..).trans (if_neg (by decide))
  change SameDecaying _ (overlapStore.rowAt "a")
    ((protocol.atomic besideDeposit overlapStore).rowAt "a")
  rw [hbeside]
  exact ⟨fun _ => rfl, rfl, rfl, fun _ => rfl⟩

end StigmergicMesh.Redis
