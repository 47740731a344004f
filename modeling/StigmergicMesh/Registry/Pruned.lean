import StigmergicMesh.Field.Decay
import StigmergicMesh.Registry.Worker
import StigmergicMesh.Router.Route

/-!
# What becomes of a pruned worker

Pruning deposits one latency of 999 seconds. From then on the row fades like every other, and its
latency fades with it, while `_EPS` and the traces whose flag is off stay. `score_scale_le_iff`
says when fading raises a score; with the default weights it always does.
-/

namespace StigmergicMesh

variable {K : Type*} [Field K] [LinearOrder K]

/-! ## The row right after pruning -/

namespace WorkerRegistry

/-- The row of a worker after the deposit of its pruning. -/
def prunedRow (r : Row K) : Row K := ⟨r.V / 2.0, (999.0 + r.L) / 2.0, 0, r.C / 2.0⟩

theorem deposit_pruneTrace [IsStrictOrderedRing K] (scale : K) (r : Row K) :
    r.deposit scale pruneTrace = prunedRow r := by
  simp only [Row.deposit, pruneTrace, prunedRow, Row.ewma, Row.successVal,
    Row.clampUnit_of_mem le_rfl zero_le_one, Row.mk.injEq, Int.cast_zero, zero_mul, true_and]
  refine ⟨?_, ?_, ?_⟩ <;> norm_num <;> ring

/-- A pass over nodes that are all known either leaves a node alone or deposits on it once and
forgets it. -/
theorem pruneNodes_cases (alive : String → Bool) {ids : List String} (hids : ids.Nodup)
    {r : WorkerRegistry K} (hf : r.field.Consistent) (hknown : ∀ m ∈ ids, m ∈ r.known.keys)
    (n : String) :
    ((pruneNodes alive ids r).2.field.rowOf n = r.field.rowOf n ∧
        (n ∈ (pruneNodes alive ids r).2.known.keys ↔ n ∈ r.known.keys)) ∨
      (n ∈ ids ∧ n ∉ (pruneNodes alive ids r).2.known.keys ∧
        (pruneNodes alive ids r).2.field.rowOf n =
          (r.field.rowOf n).map (Row.deposit r.field.saturationScale pruneTrace)) := by
  induction ids generalizing r with
  | nil => exact Or.inl ⟨rfl, Iff.rfl⟩
  | cons m ids ih =>
    obtain ⟨hm, hnodup⟩ := List.nodup_cons.mp hids
    have hrest : ∀ k ∈ ids, k ∈ r.known.keys := fun k hk => hknown k (List.mem_cons_of_mem m hk)
    obtain ⟨hc, hresult, hsame, hrow⟩ := hf.depositTrace m pruneTrace
    unfold pruneNodes
    split
    · rcases ih hnodup hf hrest with h | ⟨hmem, h⟩
      · exact Or.inl h
      · exact Or.inr ⟨List.mem_cons_of_mem m hmem, h⟩
    · by_cases htracked : m ∈ r.field.nodeIds
      · -- The deposit succeeds and the node is forgotten; the rest of the pass spares it.
        have hpunish : r.punish m =
            (.ok (), { r with field := (r.field.depositTrace m pruneTrace).2 }) := by
          simp [punish, hresult, htracked]
        have hforget : forget { r with field := (r.field.depositTrace m pruneTrace).2 } m =
            (.ok (), ⟨r.known.erase m, (r.field.depositTrace m pruneTrace).2⟩) := by
          simp [forget, hknown m List.mem_cons_self]
        simp only [hpunish, hforget]
        have hrest' : ∀ k ∈ ids, k ∈ (r.known.erase m).keys := fun k hk =>
          Dict.mem_keys_erase.mpr ⟨fun he => hm (he ▸ hk), hrest k hk⟩
        have hscale := (r.field.depositTrace_rowsOnly m pruneTrace).settings.1
        rcases ih (r := ⟨r.known.erase m, (r.field.depositTrace m pruneTrace).2⟩) hnodup hc hrest'
          with ⟨hn, hk⟩ | ⟨hmem, hgone, hn⟩
        · by_cases hnm : n = m
          · subst hnm
            refine Or.inr ⟨List.mem_cons_self, by simp [hk], ?_⟩
            rw [hn, hrow, if_pos rfl]
          · refine Or.inl ⟨?_, by simp [hk, hnm]⟩
            rw [hn, hrow, if_neg hnm]
        · have hnm : n ≠ m := fun he => hm (he ▸ hmem)
          refine Or.inr ⟨List.mem_cons_of_mem m hmem, hgone, ?_⟩
          rw [hn, hrow, if_neg hnm, hscale]
      · have hpunish : r.punish m = (.error (.keyError m), r) := by
          simp [punish, hresult, htracked, hsame]
        exact Or.inl (by simp [hpunish])

/-- The row of a worker that `prune_unhealthy_workers` has dropped. -/
theorem rowOf_pruned [IsStrictOrderedRing K] {r : WorkerRegistry K} (hf : r.field.Consistent)
    {alive : String → Bool} {n : String} (hn : n ∈ r.known.keys)
    (hgone : n ∉ (r.pruneUnhealthyWorkers alive).2.known.keys) :
    (r.pruneUnhealthyWorkers alive).2.field.rowOf n = (r.field.rowOf n).map prunedRow := by
  rcases pruneNodes_cases alive r.known.nodupKeys hf (fun m hm => hm) n with
    ⟨-, hk⟩ | ⟨-, -, hrow⟩
  · exact absurd (hk.mpr hn) hgone
  · exact hrow.trans (congrArg (Option.map · _) (funext (deposit_pruneTrace _)))

end WorkerRegistry

/-! ## Fading and the score -/

namespace Router

/-- What of a row's score numerator evaporation leaves as it is. -/
def heldPart (w : Weights K) (flags : Row.DecayFlags) (r : Row K) : K :=
  (if flags.decaySuccess then 0 else w.alpha * r.V) +
    (if flags.decayCapability then 0 else w.delta * r.C) + eps

/-- What of it evaporation scales. -/
def fadingPart (w : Weights K) (flags : Row.DecayFlags) (r : Row K) : K :=
  (if flags.decaySuccess then w.alpha * r.V else 0) +
    (if flags.decayCapability then w.delta * r.C else 0)

omit [LinearOrder K] in
theorem scoreNumerator_scale (w : Weights K) (flags : Row.DecayFlags) (r : Row K) (q : K) :
    scoreNumerator w (r.scale flags q) = heldPart w flags r + fadingPart w flags r * q := by
  rcases flags with ⟨_ | _, _ | _⟩ <;>
    simp [scoreNumerator, Row.scale, heldPart, fadingPart] <;> ring

omit [LinearOrder K] in
theorem scoreNumerator_eq (w : Weights K) (flags : Row.DecayFlags) (r : Row K) :
    scoreNumerator w r = heldPart w flags r + fadingPart w flags r := by
  simpa [Row.scale_one] using scoreNumerator_scale w flags r 1

variable [IsStrictOrderedRing K]

/-- Fading does not raise the score of an idle row exactly if it changes nothing, or the numerator
loses at least the share that the latency term of the denominator loses. -/
theorem score_scale_le_iff {w : Weights K} (hw : w.Nonneg) (flags : Row.DecayFlags) {r : Row K}
    (hL : 0 ≤ r.L) (hS : r.S = 0) {q : K} (h₀ : 0 < q) (h₁ : q ≤ 1) :
    score w (r.scale flags q) ≤ score w r ↔
      q = 1 ∨ heldPart w flags r * (w.beta * r.L) ≤ fadingPart w flags r * eps := by
  have hbefore : 0 < scoreDenominator w r := scoreDenominator_pos hw hL hS.ge
  have hafter : 0 < scoreDenominator w (r.scale flags q) :=
    scoreDenominator_pos hw (mul_nonneg hL h₀.le) (mul_nonneg hS.ge h₀.le)
  rw [score, score, div_le_div_iff₀ hafter hbefore, scoreNumerator_scale,
    scoreNumerator_eq w flags r]
  set F := heldPart w flags r
  set M := fadingPart w flags r
  have hden : scoreDenominator w r = w.beta * r.L + eps := by simp [scoreDenominator, hS]
  have hden' : scoreDenominator w (r.scale flags q) = w.beta * r.L * q + eps := by
    simp [scoreDenominator, hS, mul_assoc]
  rw [hden, hden']
  have hdiff : (F + M * q) * (w.beta * r.L + eps) - (F + M) * (w.beta * r.L * q + eps) =
      (1 - q) * (F * (w.beta * r.L) - M * eps) := by ring
  rw [← sub_nonpos, hdiff]
  rcases h₁.eq_or_lt with rfl | hlt
  · simp
  · rw [or_iff_right hlt.ne, ← mul_zero (1 - q), mul_le_mul_iff_of_pos_left (sub_pos.mpr hlt),
      sub_nonpos]

/-- A pruned row keeps a worker excluded. -/
def PruningHolds (w : Weights K) (flags : Row.DecayFlags) (r : Row K) : Prop :=
  heldPart w flags (WorkerRegistry.prunedRow r) * (w.beta * ((999.0 + r.L) / 2.0)) ≤
    fadingPart w flags (WorkerRegistry.prunedRow r) * eps

/-- After a pruning the calls that spare the worker do not raise its score above what it was right
after the pruning, exactly if they decay nothing or the pruned row holds. -/
theorem pruned_stays_excluded_iff (router : Router K) (weightsOverride : Option (Dict String K))
    (hw : (router.weightsFor weightsOverride).Nonneg) (r : WorkerRegistry K)
    (hf : r.field.Consistent) (alive : String → Bool) (n : String) (hn : n ∈ r.known.keys)
    (hgone : n ∉ (r.pruneUnhealthyWorkers alive).2.known.keys) (row : Row K)
    (hrow : r.field.rowOf n = some row) (hL : 0 ≤ row.L) (ops : List (InMemoryField.Op K))
    (hops : ∀ op ∈ ops, op.Spares n) :
    router.NotMoreAttractive weightsOverride (r.pruneUnhealthyWorkers alive).2.field
        ((r.pruneUnhealthyWorkers alive).2.field.run ops) n ↔
      InMemoryField.decayFactor ops = 1 ∨
        PruningHolds (router.weightsFor weightsOverride) r.field.decay row := by
  have hrows := r.pruneUnhealthyWorkers_rowsOnly alive
  have hpruned : (r.pruneUnhealthyWorkers alive).2.field.rowOf n =
      some (WorkerRegistry.prunedRow row) := by
    rw [WorkerRegistry.rowOf_pruned hf hn hgone, hrow, Option.map_some]
  have hlater := (hrows.consistent hf).rowOf_run_of_spares hpruned hops
  have hL' : 0 ≤ (WorkerRegistry.prunedRow row).L := by
    simp only [WorkerRegistry.prunedRow]
    positivity
  obtain ⟨h₀, h₁⟩ := InMemoryField.decayFactor_mem ops
  rw [hrows.settings.2] at hlater
  simp only [NotMoreAttractive, scoreOf_eq, hpruned, hlater, Option.map_some, Option.some.injEq]
  refine Iff.trans ?_ (score_scale_le_iff hw r.field.decay hL' rfl h₀ h₁)
  constructor
  · exact fun h => h _ _ rfl rfl
  · rintro h _ _ rfl rfl
    exact h

/-! ## One worker -/

/-- A registry that knows the worker of `sampleRouter`. -/
noncomputable def knownRegistry : WorkerRegistry ℝ where
  known := ⟨[("a", ⟨.array [], .object [], 100.0⟩)], List.nodup_singleton "a"⟩
  field := sampleField Row.defaultState

/-- An override under which success outweighs the latency of a pruning. -/
noncomputable def heavyAlpha : Option (Dict String ℝ) :=
  some ⟨[("alpha", 4000.0)], List.nodup_singleton "alpha"⟩

theorem pruned_stays_excluded_iff_heavyAlpha :
    sampleRouter.NotMoreAttractive heavyAlpha
      (knownRegistry.pruneUnhealthyWorkers fun _ => false).2.field
      ((knownRegistry.pruneUnhealthyWorkers fun _ => false).2.field.run
        [.applyEvaporation 0.05, .applyEvaporation 0.05]) "a" := by
  have hw : (sampleRouter.weightsFor heavyAlpha).Nonneg :=
    weightsFor_nonneg (by constructor <;> norm_num [sampleRouter, Router.new, Dict.getD])
      (by rintro d ⟨⟩ x hx; simp [Dict.values] at hx; rw [hx]; norm_num)
  refine (pruned_stays_excluded_iff sampleRouter heavyAlpha hw knownRegistry
    (sampleField_consistent _) (fun _ => false) "a" (List.mem_singleton.mpr rfl)
    List.not_mem_nil Row.defaultState rfl (by norm_num [Row.defaultState]) _
    (by simp [InMemoryField.Op.Spares])).mpr (Or.inr ?_)
  have hweights : sampleRouter.weightsFor heavyAlpha = ⟨4000.0, 2.0, 1.5, 1.5⟩ := rfl
  norm_num [hweights, PruningHolds, heldPart, fadingPart, WorkerRegistry.prunedRow, knownRegistry,
    sampleField, Row.defaultState, eps]

/-- One tick of the decay engine raises the score of a worker pruned at the baseline row. -/
theorem pruned_worker_recovers :
    ¬sampleRouter.NotMoreAttractive none
      (knownRegistry.pruneUnhealthyWorkers fun _ => false).2.field
      ((knownRegistry.pruneUnhealthyWorkers fun _ => false).2.field.run
        [.applyEvaporation 0.05]) "a" := by
  intro h
  have hf : knownRegistry.field.Consistent := sampleField_consistent _
  have hrows := knownRegistry.pruneUnhealthyWorkers_rowsOnly fun _ => false
  have hpruned : (knownRegistry.pruneUnhealthyWorkers fun _ => false).2.field.rowOf "a" =
      some (WorkerRegistry.prunedRow Row.defaultState) :=
    WorkerRegistry.rowOf_pruned hf (List.mem_singleton.mpr rfl) List.not_mem_nil
  have hspares : ∀ op ∈ [InMemoryField.Op.applyEvaporation (0.05 : ℝ)], op.Spares "a" := by
    simp [InMemoryField.Op.Spares]
  have hlater := (hrows.consistent hf).rowOf_run_of_spares hpruned hspares
  rw [hrows.settings.2] at hlater
  have hq : InMemoryField.decayFactor [.applyEvaporation (0.05 : ℝ)] = 0.95 := by
    norm_num [InMemoryField.decayFactor, InMemoryField.Op.tickFactor]
  rw [hq] at hlater
  have hle := h _ _ ((scoreOf_eq ..).trans (congrArg _ hpruned))
    ((scoreOf_eq ..).trans (congrArg _ hlater))
  have hL : 0 ≤ (WorkerRegistry.prunedRow (Row.defaultState (K := ℝ))).L := by
    norm_num [WorkerRegistry.prunedRow, Row.defaultState]
  have hholds := (score_scale_le_iff sampleRouter_nonneg _ hL rfl (by norm_num)
    (by norm_num)).mp hle
  have hweights : sampleRouter.weightsFor none = ⟨1, 2.0, 1.5, 1.5⟩ := rfl
  norm_num [hweights, heldPart, fadingPart, WorkerRegistry.prunedRow, knownRegistry, sampleField,
    Row.defaultState, eps] at hholds

end Router

end StigmergicMesh
