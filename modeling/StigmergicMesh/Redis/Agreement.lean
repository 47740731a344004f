import StigmergicMesh.Field.FiniteMap
import StigmergicMesh.Redis.Effects

/-!
# The two backends on the same timed run

A `Twin` is an in-memory field and an initialised Redis field of one configuration that receive
the same calls. An evaporation does the same to both. A deposit is preceded by the script's lazy
decay on the Redis side only, so the backends stay in agreement exactly as long as that decay
changes nothing: `exec_agree_iff` for one call, `backends_agree_iff` for a run.
-/

namespace StigmergicMesh.Redis

/-- The two fields, and the store of the Redis one. -/
structure Twin where
  memory : InMemoryField ℝ
  client : RedisField ℝ
  store : Store ℝ

/-- A call with the time at which it runs. -/
inductive TimedOp where
  | deposit (now : ℝ) (nodeId : String) (trace : Trace ℝ)
  | tick (now : ℝ)

namespace Twin

def clock (now : ℝ) : Clock ℝ := ⟨fun _ => now, now⟩

/-- One call on both fields; the decay engine ticks at the configured rate. -/
noncomputable def exec (w : Twin) : TimedOp → Twin
  | .deposit now n t =>
    let (_, client, store) := w.client.depositTrace (clock now) w.store n t
    ⟨(w.memory.depositTrace n t).2, client, store⟩
  | .tick now =>
    let (_, client, store) := w.client.applyEvaporation (clock now) w.store w.client.decayRate
    ⟨(w.memory.applyEvaporation w.client.decayRate).2, client, store⟩

/-- Both fields report the same traces for every node. -/
def Agree (w : Twin) : Prop :=
  ∀ clock n, w.memory.exportStateDict.get? n = (w.client.exportStateDict clock w.store).1.get? n

/-- Agreement at the start of a run and after each of its calls. -/
def AgreesThroughout (w : Twin) : List TimedOp → Prop
  | [] => w.Agree
  | op :: ops => w.Agree ∧ (w.exec op).AgreesThroughout ops

/-- Fields of one configuration: the same nodes, scale, flags and a rate the engine accepts. -/
structure Paired (w : Twin) : Prop where
  consistent : w.memory.Consistent
  initialized : w.client.initialized = true
  nodeIds : w.client.nodeIds = w.memory.nodeIds
  nodeIndex : w.client.nodeIndex = w.memory.nodeIndex
  saturationScale : w.client.saturationScale = w.memory.saturationScale
  decay : w.client.decay = w.memory.decay
  rate_nonneg : 0 ≤ w.client.decayRate
  rate_lt_one : w.client.decayRate < 1
  interval_pos : 0 < w.client.decayIntervalSec

/-- The lazy decay before a deposit changes nothing: the rate is zero, no time has passed since
the hash was written, or the traces it scales are zero. -/
def Harmless (w : Twin) : TimedOp → Prop
  | .tick _ => True
  | .deposit now n _ =>
    n ∈ w.client.nodeIds → w.client.decayRate = 0 ∨
      now ≤ (w.store.hgetall (nodeKey n)).ts.getD 0 ∨
      ((w.client.decay.decaySuccess = true → (w.store.rowAt n).V = 0) ∧ (w.store.rowAt n).L = 0 ∧
        (w.client.decay.decayCapability = true → (w.store.rowAt n).C = 0))

def HarmlessThroughout (w : Twin) : List TimedOp → Prop
  | [] => True
  | op :: ops => w.Harmless op ∧ (w.exec op).HarmlessThroughout ops

/-- Nondecreasing times, with a tick exactly every `interval` and nothing between a due tick and
its execution: `last` is the time of the last call, `next` of the next tick. -/
def WellTimed (interval : ℝ) : ℝ → ℝ → List TimedOp → Prop
  | _, _, [] => True
  | last, next, .deposit now _ _ :: ops =>
    last ≤ now ∧ now ≤ next ∧ WellTimed interval now next ops
  | _, next, .tick now :: ops => now = next ∧ WellTimed interval next (next + interval) ops

/-! ## One call -/

theorem Paired.agree_iff {w : Twin} (h : w.Paired) :
    w.Agree ↔ ∀ n ∈ w.client.nodeIds, w.memory.rowOf n = some (w.store.rowAt n) := by
  simp only [Agree, h.consistent.get?_exportStateDict,
    RedisField.get?_exportStateDict h.initialized]
  constructor
  · intro hagree n hn
    rw [hagree (clock 0) n, if_pos hn]
  · intro hrow _ n
    by_cases hn : n ∈ w.client.nodeIds
    · rw [if_pos hn, hrow n hn]
    · rw [if_neg hn, ← Option.not_isSome_iff_eq_none, h.consistent.rowOf_isSome, ← h.nodeIds]
      exact hn

theorem Paired.exec_tick {w : Twin} (h : w.Paired) (now : ℝ) :
    w.exec (.tick now) =
      ⟨(w.memory.applyEvaporation w.client.decayRate).2, w.client,
        RedisField.writeBack w.client.nodeIds w.client.decay (1 - w.client.decayRate) now
          (RedisField.readAll w.client.nodeIds w.store) w.store⟩ := by
  simp only [exec, RedisField.applyEvaporation_of_initialized h.initialized _ _
    ⟨h.rate_nonneg, h.rate_lt_one⟩, clock]

theorem Paired.exec_deposit {w : Twin} (h : w.Paired) (now : ℝ) (n : String) (t : Trace ℝ) :
    w.exec (.deposit now n t) =
      ⟨(w.memory.depositTrace n t).2, w.client,
        if n ∈ w.client.nodeIds then w.client.evalDeposit now n t w.store else w.store⟩ := by
  have hknown : n ∈ w.client.nodeIds ↔ (w.client.nodeIndex.get? n).isSome := by
    rw [h.nodeIds, h.nodeIndex]
    constructor
    · intro hn
      obtain ⟨i, hi⟩ := List.mem_iff_getElem?.mp hn
      rw [(h.consistent.index n i).mpr hi]
      rfl
    · intro hs
      obtain ⟨i, hi⟩ := Option.isSome_iff_exists.mp hs
      exact List.mem_of_getElem? (h.consistent.index_some hi).2.1
  simp only [exec, RedisField.depositTrace_of_initialized h.initialized, clock]
  cases hi : w.client.nodeIndex.get? n with
  | none => rw [if_neg (by simp [hknown, hi])]
  | some i => rw [if_pos (by simp [hknown, hi])]

theorem Paired.of_rowsOnly {w : Twin} (h : w.Paired) {memory : InMemoryField ℝ}
    (hrows : w.memory.RowsOnly memory) (s : Store ℝ) : Paired ⟨memory, w.client, s⟩ := by
  have hc := hrows.consistent h.consistent
  obtain ⟨rows, -, rfl⟩ := hrows
  exact ⟨hc, h.initialized, h.nodeIds, h.nodeIndex, h.saturationScale, h.decay, h.rate_nonneg,
    h.rate_lt_one, h.interval_pos⟩

/-- A call leaves the pair paired. -/
theorem Paired.exec {w : Twin} (h : w.Paired) (op : TimedOp) : (w.exec op).Paired := by
  cases op with
  | deposit now n t =>
    rw [h.exec_deposit]
    exact h.of_rowsOnly (w.memory.depositTrace_rowsOnly n t) _
  | tick now =>
    rw [h.exec_tick]
    exact h.of_rowsOnly (w.memory.applyEvaporation_rowsOnly _) _

/-- From agreement, a call leads to agreement exactly when it is harmless. -/
theorem Paired.exec_agree_iff {w : Twin} (h : w.Paired) (hw : w.Agree) (op : TimedOp) :
    (w.exec op).Agree ↔ w.Harmless op := by
  rw [h.agree_iff] at hw
  rw [(h.exec op).agree_iff]
  cases op with
  | tick now =>
    rw [h.exec_tick]
    simp only [Harmless, iff_true]
    intro n hn
    rw [(h.consistent.applyEvaporation _).2.2 n, if_pos ⟨h.rate_nonneg, h.rate_lt_one⟩, hw n hn,
      RedisField.rowAt_writeBack_readAll, if_pos hn, h.decay]
    rfl
  | deposit now m t =>
    rw [h.exec_deposit]
    simp only [Harmless, (h.consistent.depositTrace m t).2.2.2]
    by_cases hm : m ∈ w.client.nodeIds
    · have hlazy := Row.deposit_scale_eq_iff w.client.decay
        (w.client.lazyFactor now (w.store.hgetall (nodeKey m))) w.client.saturationScale t
        (w.store.rowAt m)
      rw [RedisField.lazyFactor_eq_one_iff h.rate_nonneg h.rate_lt_one h.interval_pos,
        or_assoc] at hlazy
      rw [imp_iff_right hm, ← hlazy]
      simp only [if_pos hm, RedisField.rowAt_evalDeposit]
      constructor
      · intro hall
        have hm' := hall m hm
        rw [if_pos rfl, if_pos rfl, hw m hm, ← h.saturationScale] at hm'
        exact (Option.some.inj hm').symm
      · intro heq n hn
        by_cases hnm : n = m
        · subst hnm
          rw [if_pos rfl, if_pos rfl, hw n hn, ← h.saturationScale, heq]
          rfl
        · rw [if_neg hnm, if_neg hnm, hw n hn]
    · -- An unknown node: both calls raise.
      simp only [hm, false_imp_iff, iff_true, if_false]
      intro n hn
      have hnm : n ≠ m := fun e => hm (e ▸ hn)
      rw [if_neg hnm, hw n hn]

/-! ## Runs -/

/-- The backends agree after every call of a run exactly when every deposit of it is harmless. -/
theorem backends_agree_iff (w : Twin) (h : w.Paired) (hw : w.Agree) (ops : List TimedOp) :
    w.AgreesThroughout ops ↔ w.HarmlessThroughout ops := by
  induction ops generalizing w with
  | nil => simp [AgreesThroughout, HarmlessThroughout, hw]
  | cons op ops ih =>
    simp only [AgreesThroughout, HarmlessThroughout, hw, true_and, ← h.exec_agree_iff hw]
    constructor
    · intro hrest
      have hnext : (w.exec op).Agree := by
        cases ops with
        | nil => exact hrest
        | cons _ _ => exact hrest.1
      exact ⟨hnext, (ih _ (h.exec op) hnext).mp hrest⟩
    · rintro ⟨hnext, hrest⟩
      exact (ih _ (h.exec op) hnext).mpr hrest

/-! ## A deposit at the end of an interval -/

/-- One node at the baseline under the default settings, last written at time 100. -/
noncomputable def sample : Twin where
  memory := ⟨["a"], Dict.enumerate ["a"], [Row.defaultState], 0.1, ⟨true, true⟩⟩
  client :=
    { RedisField.new ["a"] 0.1 ⟨true, true⟩ 0.05 0.5 with initialized := true }
  store := RedisField.writeBaselines ["a"] (fun _ => 100.0) (fun _ => none)

theorem sample_paired : sample.Paired where
  consistent := (InMemoryField.consistent_new (List.nodup_singleton "a") none rfl).1
  initialized := rfl
  nodeIds := rfl
  nodeIndex := rfl
  saturationScale := rfl
  decay := rfl
  rate_nonneg := by norm_num [sample, RedisField.new]
  rate_lt_one := by norm_num [sample, RedisField.new]
  interval_pos := by norm_num [sample, RedisField.new]

theorem sample_hash : sample.store.hgetall (nodeKey "a") = .ofRow Row.defaultState 100 := by
  norm_num [sample, Store.hgetall, RedisField.writeBaselines_nodeKey]

theorem sample_agree : sample.Agree := by
  rw [sample_paired.agree_iff]
  intro n hn
  obtain rfl := List.mem_singleton.mp hn
  rw [Store.rowAt, sample_hash]
  rfl

/-- Tick, then deposit at the time of the tick: nothing is left to decay. -/
theorem backends_agree_iff_tick_first :
    WellTimed (1 / 2) 100 (100 + 1 / 2)
        [.tick (100 + 1 / 2), .deposit (100 + 1 / 2) "a" ⟨1, 5, true, 2, 1⟩] ∧
      sample.AgreesThroughout
        [.tick (100 + 1 / 2), .deposit (100 + 1 / 2) "a" ⟨1, 5, true, 2, 1⟩] := by
  refine ⟨by norm_num [WellTimed], ?_⟩
  refine (backends_agree_iff sample sample_paired sample_agree _).mpr
    ⟨trivial, fun hn => Or.inr (Or.inl (le_of_eq ?_)), trivial⟩
  rw [sample_paired.exec_tick] at hn ⊢
  simp only [Store.hgetall, RedisField.writeBack_readAll]
  rw [if_pos hn]
  rfl

/-- Deposit, then tick, both half a second after the last write: the script decays the row by a
whole interval that the tick decays again. -/
theorem lazy_decay_disagrees :
    WellTimed (1 / 2) 100 (100 + 1 / 2)
        [.deposit (100 + 1 / 2) "a" ⟨1, 5, true, 2, 1⟩, .tick (100 + 1 / 2)] ∧
      ¬ sample.AgreesThroughout
        [.deposit (100 + 1 / 2) "a" ⟨1, 5, true, 2, 1⟩, .tick (100 + 1 / 2)] := by
  refine ⟨by norm_num [WellTimed], fun hall => ?_⟩
  have hharm := (sample_paired.exec_agree_iff sample_agree _).mp hall.2.1
    (List.mem_singleton.mpr rfl)
  rw [Store.rowAt, sample_hash] at hharm
  norm_num [sample, RedisField.new, Row.defaultState] at hharm

end Twin

end StigmergicMesh.Redis
