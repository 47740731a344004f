import StigmergicMesh.Field.FiniteMap

/-!
# Decay along a history

Every accepted tick multiplies the decaying traces by its factor. Over a history that spares a
node its row is scaled by the product of the factors, and over one of ticks alone every row is.
-/

namespace StigmergicMesh.InMemoryField

variable {K : Type*} [Field K] [LinearOrder K]

/-- The call makes no deposit on the node, loads no snapshot of it and does not remove it. -/
def Op.Spares (n : String) : Op K → Prop
  | .depositTrace m _ => n ≠ m
  | .removeNode m => n ≠ m
  | .hydrateFromSnapshot s => Op.onRow n (.hydrateFromSnapshot s) = none
  | _ => True

/-- The factor of a tick; a tick with a refused rate decays nothing. -/
def Op.tickFactor : Op K → K
  | .applyEvaporation rate => if 0 ≤ rate ∧ rate < 1 then 1 - rate else 1
  | _ => 1

/-- By what a history decays the traces. -/
def decayFactor (ops : List (Op K)) : K := (ops.map Op.tickFactor).prod

theorem Op.tickFactor_mem [IsStrictOrderedRing K] (op : Op K) :
    0 < op.tickFactor ∧ op.tickFactor ≤ 1 := by
  cases op with
  | applyEvaporation rate =>
    simp only [tickFactor]
    split
    · rename_i h
      exact ⟨by linarith [h.2], by linarith [h.1]⟩
    · simp
  | _ => simp [tickFactor]

theorem decayFactor_mem [IsStrictOrderedRing K] (ops : List (Op K)) :
    0 < decayFactor ops ∧ decayFactor ops ≤ 1 := by
  induction ops with
  | nil => simp [decayFactor]
  | cons op ops ih =>
    obtain ⟨h₀, h₁⟩ := op.tickFactor_mem
    simp only [decayFactor, List.map_cons, List.prod_cons] at ih ⊢
    exact ⟨mul_pos h₀ ih.1, mul_le_one₀ h₁ ih.1.le ih.2⟩

/-! ## Rows that are spared -/

theorem Op.Spares.effect {op : Op K} {n : String} (h : op.Spares n) (scale : K)
    (flags : Row.DecayFlags) (r : Row K) :
    op.effect scale flags n (some r) = some (r.scale flags op.tickFactor) := by
  cases op with
  | addNode m tags =>
    simp [Op.effect, Op.tickFactor, Row.scale_one]
  | removeNode m =>
    have hne : n ≠ m := h
    simp [Op.effect, Op.tickFactor, Row.scale_one, hne]
  | depositTrace m t =>
    have hne : n ≠ m := h
    simp [Op.effect, Op.onRow, Op.tickFactor, Row.scale_one, hne]
  | applyEvaporation rate =>
    by_cases hr : 0 ≤ rate ∧ rate < 1
    · simp [Op.effect, Op.onRow, Op.tickFactor, hr, RowOp.apply, Row.evaporate]
    · simp [Op.effect, Op.onRow, Op.tickFactor, hr, Row.scale_one]
  | hydrateFromSnapshot s =>
    have hnone : Op.onRow n (.hydrateFromSnapshot s) = none := h
    simp [Op.effect, hnone, Op.tickFactor, Row.scale_one]

/-- A spared row only fades. -/
theorem Consistent.rowOf_run_of_spares {f : InMemoryField K} (hf : f.Consistent) {n : String}
    {r : Row K} (hr : f.rowOf n = some r) {ops : List (Op K)} (hops : ∀ op ∈ ops, op.Spares n) :
    (f.run ops).rowOf n = some (r.scale f.decay (decayFactor ops)) := by
  induction ops generalizing f r with
  | nil => simpa [InMemoryField.run, decayFactor, Row.scale_one] using hr
  | cons op ops ih =>
    obtain ⟨hc, hrow, -⟩ := hf.exec op
    have hstep := (hrow n).trans ((congrArg _ hr).trans
      ((hops op List.mem_cons_self).effect f.saturationScale f.decay r))
    have hlater := ih hc hstep fun o ho => hops o (List.mem_cons_of_mem op ho)
    rw [(f.exec_settings op).2, Row.scale_scale] at hlater
    simpa [InMemoryField.run, decayFactor] using hlater

/-! ## Histories of ticks -/

/-- Calls of `apply_evaporation`, one after the other. -/
def evaporations (rates : List K) : List (Op K) := rates.map .applyEvaporation

omit [Field K] [LinearOrder K] in
theorem evaporations_snoc (rates : List K) (rate : K) :
    evaporations (rates ++ [rate]) = evaporations rates ++ [.applyEvaporation rate] :=
  List.map_append

theorem decayFactor_snoc (ops : List (Op K)) (op : Op K) :
    decayFactor (ops ++ [op]) = decayFactor ops * op.tickFactor := by
  simp [decayFactor]

/-- One more tick leaves at most as much. -/
theorem decayFactor_take_succ_le [IsStrictOrderedRing K] (rates : List K) (k : ℕ) :
    decayFactor (evaporations (rates.take (k + 1))) ≤
      decayFactor (evaporations (rates.take k)) := by
  rw [List.take_add_one]
  cases rates[k]? with
  | none => simp
  | some rate =>
    rw [Option.toList_some, evaporations_snoc, decayFactor_snoc]
    exact mul_le_of_le_one_right (decayFactor_mem _).1.le (Op.tickFactor_mem _).2

theorem decayFactor_evaporations {rates : List K} (hrates : ∀ rate ∈ rates, 0 ≤ rate ∧ rate < 1) :
    decayFactor (evaporations rates) = (rates.map fun rate => 1 - rate).prod := by
  rw [decayFactor, evaporations, List.map_map]
  congr 1
  exact List.map_congr_left fun rate hrate => if_pos (hrates rate hrate)

theorem exec_applyEvaporation_state (f : InMemoryField K) (rate : K) :
    (f.exec (.applyEvaporation rate)).2.state =
      f.state.map (Row.scale f.decay (Op.applyEvaporation rate).tickFactor) := by
  simp only [exec, applyEvaporation, Op.tickFactor]
  split
  · rfl
  · rw [funext (Row.scale_one f.decay), List.map_id']

/-- Ticks scale every row of the matrix by the product of their factors. -/
theorem run_evaporations_state (f : InMemoryField K) (rates : List K) :
    (f.run (evaporations rates)).state =
      f.state.map (Row.scale f.decay (decayFactor (evaporations rates))) := by
  induction rates using List.reverseRecOn with
  | nil =>
    have hfactor : decayFactor (evaporations ([] : List K)) = 1 := rfl
    rw [hfactor, funext (Row.scale_one f.decay), List.map_id']
    rfl
  | append_singleton rates rate ih =>
    rw [evaporations_snoc, run_snoc, exec_applyEvaporation_state, ih, (run_settings f _).2,
      List.map_map, decayFactor_snoc]
    exact List.map_congr_left fun r _ => Row.scale_scale f.decay _ _ r

end StigmergicMesh.InMemoryField
