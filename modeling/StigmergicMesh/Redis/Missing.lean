import StigmergicMesh.Field.Hydration
import StigmergicMesh.Redis.Effects

/-!
# Missing fields of a stored hash

Reads and evaporation take the baseline for a missing trace. So does the deposit script, but it
takes zero for a missing timestamp and decays the baseline by the time since the epoch, where
`add_node` would have stored the present time with it.
-/

namespace StigmergicMesh.Redis

/-! ## The baseline in place of what is missing -/

section Definitions

variable {K : Type*} [Field K]

/-- The hash with its missing fields as `add_node` would write them now. -/
def NodeHash.filled (h : NodeHash K) (now : K) : NodeHash K :=
  (NodeHash.ofRow Row.defaultState now).hset h

def Store.fill (s : Store K) (n : String) (now : K) : Store K :=
  Function.update s (nodeKey n) (some ((s.hgetall (nodeKey n)).filled now))

/-- The row of the stored traces over the baseline. -/
def Store.baselineRow (s : Store K) (n : String) : Row K :=
  Row.overlay (s.hgetall (nodeKey n)).traces Row.defaultState

variable [LinearOrder K] [Transcendental K]

/-- The three code paths treat the missing traces of a node as the baseline. -/
structure MissingIsBaseline (f : RedisField K) (clock : Clock K) (s : Store K) (rate : K)
    (n : String) (t : Trace K) : Prop where
  read : ∀ i : ℕ, f.nodeIds[i]? = some n →
    (f.getStateVector clock s).1[i]? = some (s.baselineRow n)
  evaporated : (f.applyEvaporation clock s rate).2.2.rowAt n =
    (s.baselineRow n).scale f.decay (1 - rate)
  /-- A deposit finds each missing trace as if `add_node` had just written it. -/
  deposited : ∀ c : Column, c.trace (s.hgetall (nodeKey n)).traces = none →
    c.get ((f.depositTrace clock s n t).2.2.rowAt n) =
      c.get ((f.depositTrace clock (s.fill n clock.now) n t).2.2.rowAt n)
  fresh : s (nodeKey n) = none →
    (f.depositTrace clock s n t).2.2.rowAt n =
      Row.defaultState.deposit f.saturationScale t

/-- Nothing that decays is missing. -/
def NodeHash.DecayingStored (flags : Row.DecayFlags) (h : NodeHash K) : Prop :=
  (flags.decaySuccess = true → h.V ≠ none) ∧ h.L ≠ none ∧
    (flags.decayCapability = true → h.C ≠ none)

end Definitions

variable {K : Type*} [Field K]

theorem NodeHash.row_filled (h : NodeHash K) (now : K) : (h.filled now).row = h.row := by
  obtain ⟨V, L, S, C, ts⟩ := h
  cases V <;> cases L <;> cases S <;> cases C <;> rfl

theorem NodeHash.ts_filled (h : NodeHash K) (now : K) :
    (h.filled now).ts = some (h.ts.getD now) := by
  obtain ⟨V, L, S, C, ts⟩ := h
  cases ts <;> rfl

theorem Store.hgetall_fill (s : Store K) (n : String) (now : K) :
    (s.fill n now).hgetall (nodeKey n) = (s.hgetall (nodeKey n)).filled now := by
  simp [Store.fill, Store.hgetall]

namespace RedisField

variable [LinearOrder K] {f : RedisField K}

omit [LinearOrder K] in
theorem getStateVector_of_initialized (hf : f.initialized = true) (clock : Clock K)
    (s : Store K) : (f.getStateVector clock s).1 = f.nodeIds.map s.rowAt := by
  simp only [getStateVector, ensureInitialized_of_initialized hf, readAll, List.map_map]
  rfl

variable [IsStrictOrderedRing K] [Transcendental K]

/-- A deposit on a tracked node: the stored row after the lazy decay, and the observation. -/
theorem rowAt_depositTrace (hf : f.initialized = true) (clock : Clock K) (s : Store K)
    {n : String} (hn : (f.nodeIndex.get? n).isSome) (t : Trace K) :
    (f.depositTrace clock s n t).2.2.rowAt n =
      ((s.rowAt n).scale f.decay (f.lazyFactor clock.now (s.hgetall (nodeKey n)))).deposit
        f.saturationScale t := by
  obtain ⟨i, hi⟩ := Option.isSome_iff_exists.mp hn
  simp only [depositTrace_of_initialized hf, hi, rowAt_evalDeposit, if_true]

/-- The lazy decay of a hash just filled does not count a missing timestamp. -/
theorem lazyFactor_filled (f : RedisField ℝ) (now : ℝ) (h : NodeHash ℝ) :
    f.lazyFactor now (h.filled now) = if h.ts = none then 1 else f.lazyFactor now h := by
  cases hts : h.ts with
  | none => simp [lazyFactor, NodeHash.ts_filled, hts]
  | some ts => simp [lazyFactor, NodeHash.ts_filled, hts]

/-- Filling a hash changes its decay only if its timestamp is missing and there is a decay. -/
theorem lazyFactor_eq_filled_iff (f : RedisField ℝ) (h₀ : 0 ≤ f.decayRate) (h₁ : f.decayRate < 1)
    (hinterval : 0 < f.decayIntervalSec) (now : ℝ) (h : NodeHash ℝ) :
    f.lazyFactor now h = f.lazyFactor now (h.filled now) ↔
      h.ts ≠ none ∨ f.decayRate = 0 ∨ now ≤ 0 := by
  rw [lazyFactor_filled]
  by_cases hts : h.ts = none
  · rw [if_pos hts, lazyFactor_eq_one_iff h₀ h₁ hinterval, hts]
    simp
  · simp [hts]

omit [IsStrictOrderedRing K] [Transcendental K] in
/-- Two decays before a deposit give the missing traces one value exactly if they are the same
decay, or nothing that decays is missing. -/
theorem deposit_missing_iff [IsStrictOrderedRing K] (flags : Row.DecayFlags) (h : NodeHash K)
    (φ ψ scale : K) (t : Trace K) :
    (∀ c : Column, c.trace h.traces = none →
      c.get ((h.row.scale flags φ).deposit scale t) =
        c.get ((h.row.scale flags ψ).deposit scale t)) ↔
      φ = ψ ∨ h.DecayingStored flags := by
  constructor
  · intro hc
    rw [or_iff_not_imp_left]
    intro hne
    refine ⟨fun hflag hV => hne ?_, fun hL => hne ?_, fun hflag hC => hne ?_⟩
    · simpa [Column.get, Row.deposit, Row.ewma_right_inj, Row.scale, hflag, NodeHash.row, hV]
        using hc .V hV
    · have hL' := hc .L hL
      simp only [Column.get, Row.deposit, Row.ewma_right_inj, Row.scale_L, NodeHash.row, hL,
        Option.getD_none] at hL'
      exact mul_left_cancel₀ (by norm_num) hL'
    · simpa [Column.get, Row.deposit, Row.ewma_right_inj, Row.scale, hflag, NodeHash.row, hC]
        using hc .C hC
  · rintro (rfl | ⟨hV, hL, hC⟩) c hc
    · rfl
    · cases c with
      | V =>
        have hflag : flags.decaySuccess = false := by
          by_contra hflag
          exact hV (by simpa using hflag) hc
        simp [Column.get, Row.deposit, Row.scale, hflag]
      | L => exact absurd hc hL
      | S => rfl
      | C =>
        have hflag : flags.decayCapability = false := by
          by_contra hflag
          exact hC (by simpa using hflag) hc
        simp [Column.get, Row.deposit, Row.scale, hflag]

end RedisField

/-- The missing traces of a tracked node are the baseline to every reader and writer exactly if
the lazy decay of a deposit does not reach them: the timestamp is stored, the rate is zero, the
clock has not started, or none of the traces that decay is missing. -/
theorem missingIsBaseline_iff {f : RedisField ℝ} (hf : f.initialized = true)
    (h₀ : 0 ≤ f.decayRate) (h₁ : f.decayRate < 1) (hinterval : 0 < f.decayIntervalSec)
    {n : String} (hn : n ∈ f.nodeIds) (hi : (f.nodeIndex.get? n).isSome) (clock : Clock ℝ)
    (s : Store ℝ) {rate : ℝ} (hrate : 0 ≤ rate ∧ rate < 1) (t : Trace ℝ) :
    MissingIsBaseline f clock s rate n t ↔
      (s.hgetall (nodeKey n)).ts ≠ none ∨ f.decayRate = 0 ∨ clock.now ≤ 0 ∨
        (s.hgetall (nodeKey n)).DecayingStored f.decay := by
  set h := s.hgetall (nodeKey n) with hh
  have hfilled : (s.fill n clock.now).hgetall (nodeKey n) = h.filled clock.now :=
    s.hgetall_fill n clock.now
  have hrow : (s.fill n clock.now).rowAt n = h.row := by
    rw [Store.rowAt, hfilled, NodeHash.row_filled]
  have hdeposit := RedisField.rowAt_depositTrace hf clock s hi t
  have hdepositFilled := RedisField.rowAt_depositTrace hf clock (s.fill n clock.now) hi t
  rw [hrow, hfilled] at hdepositFilled
  have hmissing := RedisField.deposit_missing_iff f.decay h (f.lazyFactor clock.now h)
    (f.lazyFactor clock.now (h.filled clock.now)) f.saturationScale t
  have hsame := f.lazyFactor_eq_filled_iff h₀ h₁ hinterval clock.now h
  rw [← or_assoc, ← or_assoc, or_assoc (a := h.ts ≠ none), ← hsame, ← hmissing]
  constructor
  · intro hall c hc
    have := hall.deposited c hc
    rwa [hdeposit, hdepositFilled] at this
  · intro hall
    refine ⟨fun i hid => ?_, ?_, fun c hc => ?_, fun hnone => ?_⟩
    · rw [RedisField.getStateVector_of_initialized hf, List.getElem?_map, hid]
      rfl
    · rw [RedisField.applyEvaporation_of_initialized hf clock s hrate,
        RedisField.rowAt_writeBack_readAll, if_pos hn]
      rfl
    · rw [hdeposit, hdepositFilled]
      exact hall c hc
    · -- Every trace is missing, and the filled hash is the baseline of this moment.
      have hempty : h = NodeHash.empty := by rw [hh, Store.hgetall, hnone]; rfl
      have hfactor : f.lazyFactor clock.now (h.filled clock.now) = 1 := by
        rw [RedisField.lazyFactor_filled, hempty]
        rfl
      have hcolumns := Column.ext_get fun c => hall c (by rw [hempty]; cases c <;> rfl)
      rw [hfactor, Row.scale_one] at hcolumns
      rw [hdeposit]
      exact hcolumns.trans (by rw [hempty]; rfl)

/-! ## A client with the default settings -/

noncomputable def defaultClient : RedisField ℝ :=
  { RedisField.new ["a"] 0.1 ⟨true, true⟩ 0.05 0.5 with initialized := true }

/-- Only the capability is missing, and its decay is switched off. -/
theorem missingIsBaseline_iff_capability :
    MissingIsBaseline { defaultClient with decay := ⟨true, false⟩ } ⟨fun _ => 100.0, 101.0⟩
      (fun _ => some ⟨some 0.5, some 2.0, some 0, none, none⟩) 0.05 "a" ⟨2.0, 5, true, 4, 1⟩ := by
  refine (missingIsBaseline_iff rfl ?_ ?_ ?_ (List.mem_singleton.mpr rfl) rfl _ _ ?_ _).mpr
    (.inr (.inr (.inr ⟨?_, ?_, ?_⟩)))
  · norm_num [defaultClient, RedisField.new]
  · norm_num [defaultClient, RedisField.new]
  · norm_num [defaultClient, RedisField.new]
  · norm_num
  · intro _ h
    cases h
  · intro h
    cases h
  · intro h
    cases h

/-- The hash of node "a" is gone: the deposit decays the baseline by the time since the epoch. -/
theorem missing_hash_decays :
    ¬ MissingIsBaseline defaultClient ⟨fun _ => 100.0, 101.0⟩ (fun _ => none) 0.05 "a"
      ⟨2.0, 5, true, 4, 1⟩ := by
  intro h
  have hrow := h.fresh rfl
  rw [RedisField.rowAt_depositTrace rfl _ _ rfl] at hrow
  have hL : (0.1 : ℝ) * defaultClient.lazyFactor 101.0 NodeHash.empty = 0.1 :=
    Row.ewma_right_inj.mp (congrArg Row.L hrow)
  have hfactor : defaultClient.lazyFactor 101.0 (NodeHash.empty : NodeHash ℝ) = 1 :=
    mul_left_cancel₀ (by norm_num) (hL.trans (mul_one (0.1 : ℝ)).symm)
  rw [RedisField.lazyFactor_eq_one_iff (by norm_num [defaultClient, RedisField.new])
    (by norm_num [defaultClient, RedisField.new])
    (by norm_num [defaultClient, RedisField.new])] at hfactor
  norm_num [defaultClient, RedisField.new, NodeHash.empty] at hfactor

end StigmergicMesh.Redis
