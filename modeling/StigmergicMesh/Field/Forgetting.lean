import StigmergicMesh.Field.Decay

/-!
# Initial rows are forgotten

A deposit and a tick act on a row by maps whose linear part does not depend on what is observed.
The difference between two runs of the same calls is therefore a run of the linear parts: a
deposit halves the averaged traces and erases the saturation, a tick scales the decaying traces.
-/

namespace StigmergicMesh

/-! ## Differences of rows -/

namespace Row

variable {K : Type*} [Field K]

/-- Trace by trace. -/
def diff (r r' : Row K) : Row K := ⟨r.V - r'.V, r.L - r'.L, r.S - r'.S, r.C - r'.C⟩

/-- What `k` deposits and a decay by `factor` leave of a difference. -/
def faded (flags : DecayFlags) (k : ℕ) (factor : K) (d : Row K) : Row K where
  V := d.V * 0.5 ^ k * if flags.decaySuccess then factor else 1
  L := d.L * 0.5 ^ k * factor
  S := if k = 0 then d.S * factor else 0
  C := d.C * 0.5 ^ k * if flags.decayCapability then factor else 1

theorem faded_zero_one (flags : DecayFlags) (d : Row K) : d.faded flags 0 1 = d := by
  simp [faded]

theorem diff_scale (flags : DecayFlags) (q : K) (r r' : Row K) :
    diff (r.scale flags q) (r'.scale flags q) = (diff r r').scale flags q := by
  rcases flags with ⟨_ | _, _ | _⟩ <;> simp [diff, scale, sub_mul]

theorem scale_faded (flags : DecayFlags) (k : ℕ) (factor q : K) (d : Row K) :
    (d.faded flags k factor).scale flags q = d.faded flags k (factor * q) := by
  rcases flags with ⟨_ | _, _ | _⟩ <;> by_cases hk : k = 0 <;>
    simp [faded, scale, hk, mul_assoc]

variable [LinearOrder K] [IsStrictOrderedRing K]

omit [LinearOrder K] [IsStrictOrderedRing K] in
theorem ewma_sub_ewma (x y z : K) : ewma x y - ewma x z = (y - z) * (1 - 0.5) := by
  unfold ewma
  ring

/-- The observations of a deposit cancel. -/
theorem diff_deposit (flags : DecayFlags) (scale : K) (t : Trace K) {r r' d : Row K} {k : ℕ}
    {factor : K} (h : diff r r' = d.faded flags k factor) :
    diff (r.deposit scale t) (r'.deposit scale t) = d.faded flags (k + 1) factor := by
  have hhalf : (1 : K) - 0.5 = 0.5 := by norm_num
  simp only [diff, faded, Row.mk.injEq] at h
  obtain ⟨hV, hL, -, hC⟩ := h
  simp only [diff, deposit, ewma_sub_ewma, hhalf, faded, Row.mk.injEq, hV, hL, hC, sub_self,
    Nat.succ_ne_zero, if_false, true_and, pow_succ]
  refine ⟨?_, ?_, ?_⟩ <;> ring

end Row

/-! ## Two runs of the same calls -/

namespace InMemoryField

variable {K : Type*}

/-- A deposit or a tick. -/
def Op.Routine : Op K → Prop
  | .depositTrace _ _ => True
  | .applyEvaporation _ => True
  | _ => False

def Op.isDepositOn (n : String) : Op K → Bool
  | .depositTrace m _ => n = m
  | _ => false

/-- The number of deposits on a node. -/
def depositsOn (n : String) (ops : List (Op K)) : ℕ := ops.countP (Op.isDepositOn n)

theorem depositsOn_snoc (n : String) (ops : List (Op K)) (op : Op K) :
    depositsOn n (ops ++ [op]) = depositsOn n ops + if op.isDepositOn n then 1 else 0 := by
  simp [depositsOn, List.countP_append, List.countP_cons]

variable [Field K] [LinearOrder K]

theorem Indexed.rowOf_exec {f : InMemoryField K} (h : f.Indexed) {op : Op K} (hop : op.Routine)
    (n : String) :
    (f.exec op).2.rowOf n = op.effect f.saturationScale f.decay n (f.rowOf n) := by
  cases op with
  | depositTrace m t => exact h.effect_depositTrace m t n
  | applyEvaporation rate => exact f.effect_applyEvaporation rate n
  | addNode => exact hop.elim
  | removeNode => exact hop.elim
  | hydrateFromSnapshot => exact hop.elim

/-- One call on two rows of a node. -/
theorem Op.Routine.diff_effect [IsStrictOrderedRing K] {op : Op K} (hop : op.Routine)
    (n : String) (scale : K) (flags : Row.DecayFlags) {r r' d : Row K} {k : ℕ} {factor : K}
    (h : Row.diff r r' = d.faded flags k factor) :
    ∃ s s', op.effect scale flags n (some r) = some s ∧
      op.effect scale flags n (some r') = some s' ∧
      Row.diff s s' = d.faded flags (k + if op.isDepositOn n then 1 else 0)
        (factor * op.tickFactor) := by
  cases op with
  | depositTrace m t =>
    by_cases hn : n = m
    · refine ⟨r.deposit scale t, r'.deposit scale t, ?_, ?_, ?_⟩
      · simp [Op.effect, Op.onRow, hn, RowOp.apply]
      · simp [Op.effect, Op.onRow, hn, RowOp.apply]
      · simpa [isDepositOn, hn, tickFactor] using Row.diff_deposit flags scale t h
    · exact ⟨r, r', by simp [Op.effect, Op.onRow, hn], by simp [Op.effect, Op.onRow, hn],
        by simpa [isDepositOn, hn, tickFactor] using h⟩
  | applyEvaporation rate =>
    have hspares : (Op.applyEvaporation rate).Spares n := trivial
    refine ⟨_, _, hspares.effect scale flags r, hspares.effect scale flags r', ?_⟩
    rw [Row.diff_scale, h, Row.scale_faded]
    rfl
  | addNode => exact hop.elim
  | removeNode => exact hop.elim
  | hydrateFromSnapshot => exact hop.elim

/-- The difference of a node's rows after the same calls. -/
theorem diff_run [IsStrictOrderedRing K] {f g : InMemoryField K} (hf : f.Indexed)
    (hg : g.Indexed) (hdecay : g.decay = f.decay) (hscale : g.saturationScale = f.saturationScale)
    {ops : List (Op K)} (hops : ∀ op ∈ ops, op.Routine) {n : String} {r r' : Row K}
    (hr : f.rowOf n = some r) (hr' : g.rowOf n = some r') :
    (f.run ops).Indexed ∧ (g.run ops).Indexed ∧
      ∃ s s', (f.run ops).rowOf n = some s ∧ (g.run ops).rowOf n = some s' ∧
        Row.diff s s' = (Row.diff r r').faded f.decay (depositsOn n ops) (decayFactor ops) := by
  induction ops using List.reverseRecOn with
  | nil => exact ⟨hf, hg, r, r', hr, hr', (Row.faded_zero_one f.decay _).symm⟩
  | append_singleton ops op ih =>
    obtain ⟨hfi, hgi, s, s', hs, hs', hdiff⟩ := ih fun o ho => hops o (List.mem_append_left _ ho)
    have hop : op.Routine := hops op (List.mem_append_right _ (List.mem_singleton.mpr rfl))
    obtain ⟨t, t', ht, ht', hnext⟩ := hop.diff_effect n f.saturationScale f.decay hdiff
    rw [run_snoc, run_snoc, depositsOn_snoc, decayFactor_snoc]
    refine ⟨hfi.exec op, hgi.exec op, t, t', ?_, ?_, hnext⟩
    · rw [hfi.rowOf_exec hop, (run_settings f ops).1, (run_settings f ops).2, hs, ht]
    · rw [hgi.rowOf_exec hop, (run_settings g ops).1, (run_settings g ops).2, hdecay, hscale, hs',
        ht']

/-- Two fields over the same ids and with the same settings go through the same deposits and
ticks. After `k` deposits on a node the difference of its latencies is the initial one over `2 ^ k`
times the decay; so are those of V and C, without the decay where their flag is off; the
saturations differ only before the first deposit. -/
theorem initial_rows_wash_out [IsStrictOrderedRing K] (f g : InMemoryField K) (hf : f.Indexed)
    (hg : g.Indexed) (hids : g.nodeIds = f.nodeIds) (hdecay : g.decay = f.decay)
    (hscale : g.saturationScale = f.saturationScale) (ops : List (Op K))
    (hops : ∀ op ∈ ops, op.Routine) (n : String) (hn : n ∈ f.nodeIds) :
    ∃ r r' s s', f.exportStateDict.get? n = some r ∧ g.exportStateDict.get? n = some r' ∧
      (f.run ops).exportStateDict.get? n = some s ∧
      (g.run ops).exportStateDict.get? n = some s' ∧
      s.L - s'.L = (r.L - r'.L) / 2 ^ depositsOn n ops * decayFactor ops ∧
      s.V - s'.V = (r.V - r'.V) / 2 ^ depositsOn n ops *
        (if f.decay.decaySuccess then decayFactor ops else 1) ∧
      s.C - s'.C = (r.C - r'.C) / 2 ^ depositsOn n ops *
        (if f.decay.decayCapability then decayFactor ops else 1) ∧
      s.S - s'.S = if depositsOn n ops = 0 then (r.S - r'.S) * decayFactor ops else 0 := by
  obtain ⟨r, hr⟩ := Option.isSome_iff_exists.mp ((hf.rowOf_isSome n).mpr hn)
  obtain ⟨r', hr'⟩ := Option.isSome_iff_exists.mp ((hg.rowOf_isSome n).mpr (hids ▸ hn))
  obtain ⟨hfi, hgi, s, s', hs, hs', hdiff⟩ := diff_run hf hg hdecay hscale hops hr hr'
  have hhalf : ∀ x : K, x * 0.5 ^ depositsOn n ops = x / 2 ^ depositsOn n ops := by
    intro x
    rw [show (0.5 : K) = 2⁻¹ by norm_num, inv_pow, div_eq_mul_inv]
  simp only [Row.diff, Row.faded, Row.mk.injEq, hhalf] at hdiff
  obtain ⟨hV, hL, hS, hC⟩ := hdiff
  exact ⟨r, r', s, s', (hf.get?_exportStateDict n).trans hr, (hg.get?_exportStateDict n).trans hr',
    (hfi.get?_exportStateDict n).trans hs, (hgi.get?_exportStateDict n).trans hs', hL, hV, hC, hS⟩

/-- A hydrated row and the baseline, after two deposits, one of them elsewhere, and a tick. -/
theorem initial_rows_wash_out_of_two :
    ∃ f g : InMemoryField ℚ,
      new ["a", "b"] (some [⟨0, 9, 3, 0⟩, Row.defaultState]) (1 / 10) ⟨false, true⟩ = .ok f ∧
      new ["a", "b"] none (1 / 10) ⟨false, true⟩ = .ok g ∧
      ∃ s s' : Row ℚ,
        (f.run [.depositTrace "a" ⟨1, 5, true, 2, 1⟩, .applyEvaporation (1 / 2),
          .depositTrace "b" ⟨2, 5, false, 0, 1⟩]).exportStateDict.get? "a" = some s ∧
        (g.run [.depositTrace "a" ⟨1, 5, true, 2, 1⟩, .applyEvaporation (1 / 2),
          .depositTrace "b" ⟨2, 5, false, 0, 1⟩]).exportStateDict.get? "a" = some s' ∧
        s.L - s'.L = 89 / 40 ∧ s.V - s'.V = -1 / 2 ∧ s.C - s'.C = -1 / 4 ∧ s.S = s'.S := by
  refine ⟨_, _, rfl, rfl, ?_⟩
  obtain ⟨r, r', s, s', hr, hr', hs, hs', hL, hV, hC, hS⟩ := initial_rows_wash_out
    (⟨["a", "b"], Dict.enumerate ["a", "b"], [⟨0, 9, 3, 0⟩, Row.defaultState], 1 / 10,
      ⟨false, true⟩⟩ : InMemoryField ℚ)
    ⟨["a", "b"], Dict.enumerate ["a", "b"], [Row.defaultState, Row.defaultState], 1 / 10,
      ⟨false, true⟩⟩
    ⟨fun _ => rfl, rfl⟩ ⟨fun _ => rfl, rfl⟩ rfl rfl rfl
    [.depositTrace "a" ⟨1, 5, true, 2, 1⟩, .applyEvaporation (1 / 2),
      .depositTrace "b" ⟨2, 5, false, 0, 1⟩] (by simp [Op.Routine]) "a" List.mem_cons_self
  obtain rfl : ⟨0, 9, 3, 0⟩ = r := Option.some.inj hr
  obtain rfl : Row.defaultState = r' := Option.some.inj hr'
  have hne : "a" ≠ "b" := by decide
  refine ⟨s, s', hs, hs', hL.trans ?_, hV.trans ?_, hC.trans ?_, sub_eq_zero.mp (hS.trans ?_)⟩ <;>
    norm_num [hne, depositsOn, Op.isDepositOn, decayFactor, Op.tickFactor, Row.defaultState]

end InMemoryField

end StigmergicMesh
