import StigmergicMesh.Redis.Effects
import Mathlib.Algebra.BigOperators.Group.Finset.Basic

/-!
# Several replicas, each with its own decay engine

The replicas of a fleet track the same nodes over one store, and every one of them runs a decay
engine. A tick is one call of `apply_evaporation`, and nothing in the store tells a replica that
another one has already evaporated the interval: a schedule that ticks every one of `k` replicas
`n` times scales the decaying traces `k * n` times.
-/

namespace StigmergicMesh.Redis

variable {K : Type*} [Field K] [LinearOrder K] {k : Nat}

/-- `k` initialised replicas of one configuration. -/
structure Fleet (K : Type*) (k : Nat) where
  replica : Fin k → RedisField K
  nodeIds : List String
  decay : Row.DecayFlags
  initialized : ∀ i, (replica i).initialized = true
  nodeIds_eq : ∀ i, (replica i).nodeIds = nodeIds
  decay_eq : ∀ i, (replica i).decay = decay

namespace Fleet

/-- A tick of the engine of replica `i`, reading the clock at `now`. -/
def tick (F : Fleet K k) (rate : K) (s : Store K) (e : Fin k × K) : Store K :=
  ((F.replica e.1).applyEvaporation ⟨fun _ => e.2, e.2⟩ s rate).2.2

/-- Ticks one after the other. -/
def ticks (F : Fleet K k) (rate : K) (s : Store K) (schedule : List (Fin k × K)) : Store K :=
  schedule.foldl (F.tick rate) s

/-- Every engine ticks `n` times, in any order. -/
def Fair (n : Nat) (schedule : List (Fin k × K)) : Prop :=
  ∀ i, (schedule.map Prod.fst).count i = n

/-- The decaying traces end at their initial values times `(1 - rate) ^ n`, the others at their
initial values. -/
def SingleSpeed (F : Fleet K k) (rate : K) (s : Store K) (n : Nat)
    (schedule : List (Fin k × K)) : Prop :=
  ∀ node ∈ F.nodeIds,
    (F.ticks rate s schedule).rowAt node = (s.rowAt node).scale F.decay ((1 - rate) ^ n)

/-! ## One tick, many ticks -/

theorem rowAt_tick (F : Fleet K k) {rate : K} (hr : 0 ≤ rate ∧ rate < 1) (s : Store K)
    (e : Fin k × K) (node : String) :
    (F.tick rate s e).rowAt node =
      if node ∈ F.nodeIds then (s.rowAt node).scale F.decay (1 - rate) else s.rowAt node := by
  rw [tick, RedisField.applyEvaporation_of_initialized (F.initialized e.1) _ _ hr, F.nodeIds_eq,
    F.decay_eq, RedisField.rowAt_writeBack_readAll]

/-- The length of the schedule alone decides how far a tracked node's row decays. -/
theorem rowAt_ticks (F : Fleet K k) {rate : K} (hr : 0 ≤ rate ∧ rate < 1) {node : String}
    (hnode : node ∈ F.nodeIds) (schedule : List (Fin k × K)) (s : Store K) :
    (F.ticks rate s schedule).rowAt node =
      (s.rowAt node).scale F.decay ((1 - rate) ^ schedule.length) := by
  induction schedule generalizing s with
  | nil => simp [ticks, Row.scale_one]
  | cons e schedule ih =>
    have hcons : F.ticks rate s (e :: schedule) = F.ticks rate (F.tick rate s e) schedule := rfl
    rw [hcons, ih, F.rowAt_tick hr, if_pos hnode, Row.scale_scale, ← pow_succ', List.length_cons]

omit [Field K] [LinearOrder K] in
theorem Fair.length_eq {n : Nat} {schedule : List (Fin k × K)} (h : Fair n schedule) :
    schedule.length = k * n := by
  have hsum := Multiset.sum_count_eq_card (s := Finset.univ)
    (m := (schedule.map Prod.fst : Multiset (Fin k))) (fun i _ => Finset.mem_univ i)
  simp only [Multiset.coe_count, Multiset.coe_card, List.length_map] at hsum
  rw [← hsum, Finset.sum_congr rfl fun i _ => h i]
  simp

theorem pow_mul_eq_pow_iff {x : K} [IsStrictOrderedRing K] (h₀ : 0 < x) (hk : 0 < k) (n : Nat) :
    x ^ (k * n) = x ^ n ↔ k = 1 ∨ n = 0 ∨ x = 1 := by
  by_cases hx : x = 1
  · simp [hx]
  · rw [pow_right_inj₀ h₀ hx]
    simp only [hx, or_false]
    constructor
    · intro h
      by_cases hn : n = 0
      · exact Or.inr hn
      · exact Or.inl (Nat.eq_of_mul_eq_mul_right (Nat.pos_of_ne_zero hn) (by rw [h, one_mul]))
    · rintro (rfl | rfl) <;> simp

/-- Every fair schedule decays at the speed of a single replica exactly if there is only one, it
never ticks, the rate is zero, or there is nothing to decay. -/
theorem singleSpeed_iff [IsStrictOrderedRing K] (F : Fleet K k) (hk : 0 < k) (rate : K)
    (hr : 0 ≤ rate ∧ rate < 1) (s : Store K) (n : Nat) (schedule : List (Fin k × K))
    (hfair : Fair n schedule) :
    F.SingleSpeed rate s n schedule ↔
      k = 1 ∨ n = 0 ∨ rate = 0 ∨ ∀ node ∈ F.nodeIds, (s.rowAt node).DecayingZero F.decay := by
  have hnode : ∀ node ∈ F.nodeIds,
      (F.ticks rate s schedule).rowAt node = (s.rowAt node).scale F.decay ((1 - rate) ^ n) ↔
        (k = 1 ∨ n = 0 ∨ rate = 0) ∨ (s.rowAt node).DecayingZero F.decay := by
    intro node hmem
    rw [F.rowAt_ticks hr hmem, hfair.length_eq, Row.scale_eq_scale_iff,
      pow_mul_eq_pow_iff (sub_pos.mpr hr.2) hk, sub_eq_self]
  rw [SingleSpeed, forall₂_congr hnode]
  simp only [forall_or_left, or_assoc]

/-- One replica under the default settings. -/
def solo : Fleet ℚ 1 where
  replica _ :=
    { RedisField.new ["a"] 0.1 ⟨true, true⟩ 0.05 0.5 with initialized := true }
  nodeIds := ["a"]
  decay := ⟨true, true⟩
  initialized _ := rfl
  nodeIds_eq _ := rfl
  decay_eq _ := rfl

/-- Two of them. -/
def pair : Fleet ℚ 2 where
  replica _ := solo.replica 0
  nodeIds := ["a"]
  decay := ⟨true, true⟩
  initialized _ := rfl
  nodeIds_eq _ := rfl
  decay_eq _ := rfl

def baselines : Store ℚ := RedisField.writeBaselines ["a"] (fun _ => 100) (fun _ => none)

theorem singleSpeed_iff_solo :
    solo.SingleSpeed (1 / 20) baselines 2 [(0, 100), (0, 100 + 1 / 2)] :=
  (singleSpeed_iff solo (by decide) (1 / 20) (by norm_num) baselines 2
    [(0, 100), (0, 100 + 1 / 2)] (by intro i; fin_cases i; rfl)).mpr (Or.inl rfl)

/-- One tick each of two replicas decays the latency of the baseline row twice. -/
theorem pair_decays_twice :
    Fair 1 [((0 : Fin 2), (100 + 1 / 2 : ℚ)), (1, 100 + 1 / 2)] ∧
      ¬pair.SingleSpeed (1 / 20) baselines 1 [(0, 100 + 1 / 2), (1, 100 + 1 / 2)] := by
  refine ⟨by intro i; fin_cases i <;> rfl, fun h => ?_⟩
  have htracked : "a" ∈ pair.nodeIds := List.mem_singleton.mpr rfl
  have hrow : baselines.rowAt "a" = Row.defaultState := by
    simp [Store.rowAt, Store.hgetall, baselines, RedisField.writeBaselines_nodeKey]
  have hL := congrArg Row.L (h "a" htracked)
  rw [pair.rowAt_ticks (by norm_num) htracked, hrow] at hL
  norm_num [Row.defaultState] at hL

end Fleet

end StigmergicMesh.Redis
