import StigmergicMesh.Field.FiniteMap

/-!
# The range of the traces

Histories of nonnegative observations, which load no snapshot. Every row of the matrix stays in
range, whatever the ids are (`run_inRange`). Along the life of a node of a consistent field the
latency stays below the largest of the starting latency and those deposited on the node itself
(`Consistent.run_latency_le`).
-/

namespace StigmergicMesh.InMemoryField

variable {K : Type*} [Field K] [LinearOrder K]

/-- A call with a nonnegative observation; a snapshot could hold any value. -/
def Op.Nonneg : Op K → Prop
  | .depositTrace _ t => 0 ≤ t.latencySec ∧ 0 ≤ t.activeLoad
  | .hydrateFromSnapshot _ => False
  | _ => True

def RowOp.Nonneg : RowOp K → Prop
  | .deposit t => 0 ≤ t.latencySec ∧ 0 ≤ t.activeLoad
  | .evaporate rate => 0 ≤ rate ∧ rate < 1
  | .hydrate _ => False

/-- The largest of a bound and the latency of a deposit. -/
def RowOp.raise (bound : K) : RowOp K → K
  | .deposit t => max bound t.latencySec
  | _ => bound

/-- The largest of the starting latency of a life and the latencies deposited in it. -/
def Life.latencyCeiling (life : Life K) : K := life.ops.foldl RowOp.raise life.start.L

theorem RowOp.Nonneg.apply [IsStrictOrderedRing K] {op : RowOp K} (h : op.Nonneg) {scale : K}
    (hs : 0 ≤ scale) (flags : Row.DecayFlags) {r : Row K} (hr : r.InRange) {bound : K}
    (hb : r.L ≤ bound) :
    (op.apply scale flags r).InRange ∧ (op.apply scale flags r).L ≤ op.raise bound := by
  cases op with
  | deposit t =>
    refine ⟨hr.deposit hs h.1 h.2, ?_⟩
    exact (Row.ewma_mem h.1 hr.L_nonneg (le_max_right bound _) (hb.trans (le_max_left _ _))).2
  | evaporate rate =>
    refine ⟨hr.evaporate flags h.1 h.2, le_trans ?_ hb⟩
    exact mul_le_of_le_one_right hr.L_nonneg (sub_le_self 1 h.1)
  | hydrate traces => exact h.elim

/-- A life of nonnegative operations that starts in range ends in range and below its ceiling. -/
theorem Life.replay_inRange [IsStrictOrderedRing K] {life : Life K} (hstart : life.start.InRange)
    (hops : ∀ op ∈ life.ops, op.Nonneg) {scale : K} (hs : 0 ≤ scale) (flags : Row.DecayFlags) :
    (life.replay scale flags).InRange ∧ (life.replay scale flags).L ≤ life.latencyCeiling := by
  obtain ⟨start, ops⟩ := life
  induction ops using List.reverseRecOn with
  | nil => exact ⟨hstart, le_rfl⟩
  | append_singleton ops op ih =>
    obtain ⟨hrange, hceiling⟩ := ih hstart fun o ho => hops o (List.mem_append_left _ ho)
    have hop := hops op (List.mem_append_right _ (List.mem_singleton.mpr rfl))
    simp only [Life.replay, Life.latencyCeiling, List.foldl_append, List.foldl_cons,
      List.foldl_nil]
    exact hop.apply hs flags hrange hceiling

/-- Nonnegative operations change rows by a deposit or an evaporation. -/
theorem Op.Nonneg.onRow_cases {op : Op K} (h : op.Nonneg) {n : String} {rowOp : RowOp K}
    (hr : op.onRow n = some rowOp) :
    (∃ t, op = .depositTrace n t ∧ rowOp = .deposit t) ∨
      ∃ rate, op = .applyEvaporation rate ∧ rowOp = .evaporate rate ∧ 0 ≤ rate ∧ rate < 1 := by
  cases op with
  | addNode | removeNode => cases hr
  | depositTrace m t =>
    simp only [Op.onRow] at hr
    split at hr <;> cases hr
    rename_i hn
    exact Or.inl ⟨t, by rw [hn], rfl⟩
  | applyEvaporation rate =>
    simp only [Op.onRow] at hr
    split at hr <;> cases hr
    rename_i hrate
    exact Or.inr ⟨rate, rfl, rfl, hrate⟩
  | hydrateFromSnapshot s => exact h.elim

theorem Op.Nonneg.onRow {op : Op K} (h : op.Nonneg) {n : String} {rowOp : RowOp K}
    (hr : op.onRow n = some rowOp) : rowOp.Nonneg := by
  obtain ⟨t, rfl, rfl⟩ | ⟨rate, rfl, rfl, hrate⟩ := h.onRow_cases hr
  · exact h
  · exact hrate

/-- A life that starts at a given row or at the baseline and goes on with nonnegative
operations. -/
def Life.Sound (initial : Option (Row K)) (life : Life K) : Prop :=
  (initial = some life.start ∨ life.start = Row.defaultState) ∧ ∀ op ∈ life.ops, op.Nonneg

theorem Op.Nonneg.follow {op : Op K} (h : op.Nonneg) {n : String} {initial : Option (Row K)}
    {before : Option (Life K)} (hbefore : ∀ life, before = some life → life.Sound initial)
    {life : Life K} (hlife : op.follow n before = some life) : life.Sound initial := by
  cases op with
  | addNode m tags =>
    simp only [Op.follow] at hlife
    split at hlife
    · obtain rfl := Option.some.inj hlife
      cases before with
      | none => exact ⟨Or.inr rfl, by simp⟩
      | some l => exact hbefore l rfl
    · exact hbefore life hlife
  | removeNode m =>
    simp only [Op.follow] at hlife
    split at hlife
    · cases hlife
    · exact hbefore life hlife
  | depositTrace | applyEvaporation | hydrateFromSnapshot =>
    simp only [Op.follow] at hlife
    split at hlife
    · exact hbefore life hlife
    · rename_i rowOp hrow
      obtain ⟨l, rfl, rfl⟩ := Option.map_eq_some_iff.mp hlife
      obtain ⟨hstart, hops⟩ := hbefore l rfl
      exact ⟨hstart, List.forall_mem_append.mpr
        ⟨hops, List.forall_mem_singleton.mpr (h.onRow hrow)⟩⟩

theorem lifeOf_sound (n : String) (initial : Option (Row K)) {ops : List (Op K)}
    (hops : ∀ op ∈ ops, op.Nonneg) : ∀ life, lifeOf n initial ops = some life →
      life.Sound initial := by
  induction ops using List.reverseRecOn with
  | nil =>
    intro life hlife
    obtain ⟨r, rfl, rfl⟩ := Option.map_eq_some_iff.mp hlife
    exact ⟨Or.inl rfl, by simp⟩
  | append_singleton ops op ih =>
    intro life hlife
    rw [lifeOf_snoc] at hlife
    exact (hops op (by simp)).follow (ih fun o ho => hops o (List.mem_append_left _ ho)) hlife

/-- The latency of a node stays below the ceiling of its life. -/
theorem Consistent.run_latency_le [IsStrictOrderedRing K] {f : InMemoryField K}
    (h : f.Consistent) (hinit : ∀ n r, f.rowOf n = some r → r.InRange)
    (hs : 0 ≤ f.saturationScale) {ops : List (Op K)} (hops : ∀ op ∈ ops, op.Nonneg) {n : String}
    {r : Row K} (hr : (f.run ops).rowOf n = some r) :
    ∃ life, lifeOf n (f.rowOf n) ops = some life ∧ r.L ≤ life.latencyCeiling := by
  rw [(h.run ops).2 n] at hr
  obtain ⟨life, hlife, rfl⟩ := Option.map_eq_some_iff.mp hr
  obtain ⟨hstart, hlops⟩ := lifeOf_sound n (f.rowOf n) hops life hlife
  have hrange : life.start.InRange := by
    rcases hstart with hstart | hstart
    · exact hinit n _ hstart
    · rw [hstart]
      exact Row.defaultState_inRange
  exact ⟨life, hlife, (life.replay_inRange hrange hlops hs f.decay).2⟩

/-! ## Rows of the matrix -/

/-- The largest of a bound and the latency a call brings into the matrix. -/
def Op.raise (bound : K) : Op K → K
  | .depositTrace _ t => max bound t.latencySec
  | .addNode _ _ => max bound (Row.defaultState : Row K).L
  | _ => bound

/-- A row after a call is an old row, a baseline row, or an old row changed by the call. -/
theorem exec_rows (f : InMemoryField K) {op : Op K} (h : op.Nonneg) {r : Row K}
    (hr : r ∈ (f.exec op).2.state) :
    r ∈ f.state ∨ (r = Row.defaultState ∧ ∃ m tags, op = .addNode m tags) ∨
      ∃ r₀ ∈ f.state, ∃ n rowOp, op.onRow n = some rowOp ∧
        r = rowOp.apply f.saturationScale f.decay r₀ := by
  cases op with
  | addNode m tags =>
    simp only [exec, addNode] at hr
    split at hr
    · exact Or.inl hr
    · rcases List.mem_append.mp hr with hr | hr
      · exact Or.inl hr
      · exact Or.inr (Or.inl ⟨List.mem_singleton.mp hr, m, tags, rfl⟩)
  | removeNode m =>
    simp only [exec, removeNode] at hr
    split at hr
    · exact Or.inl hr
    · exact Or.inl (List.mem_of_mem_eraseIdx hr)
  | depositTrace m t =>
    simp only [exec, depositTrace, updateRow] at hr
    split at hr
    · exact Or.inl hr
    · split at hr
      · exact Or.inl hr
      · rename_i r₀ hr₀
        rcases List.mem_or_eq_of_mem_set hr with hr | rfl
        · exact Or.inl hr
        · exact Or.inr (Or.inr ⟨r₀, List.mem_of_getElem? hr₀, m, .deposit t, if_pos rfl, rfl⟩)
  | applyEvaporation rate =>
    simp only [exec, applyEvaporation] at hr
    split at hr
    · rename_i hrate
      obtain ⟨r₀, hr₀, rfl⟩ := List.mem_map.mp hr
      exact Or.inr (Or.inr ⟨r₀, hr₀, "", .evaporate rate, if_pos hrate, rfl⟩)
    · exact Or.inl hr
  | hydrateFromSnapshot s => exact h.elim

/-- A call raises the bound at least as far as what it does to a row. -/
theorem Op.raise_onRow {op : Op K} (h : op.Nonneg) (bound : K) {n : String} {rowOp : RowOp K}
    (hr : op.onRow n = some rowOp) : rowOp.raise bound ≤ op.raise bound := by
  obtain ⟨t, rfl, rfl⟩ | ⟨rate, rfl, rfl, -⟩ := h.onRow_cases hr
  · exact le_rfl
  · exact le_rfl

variable [IsStrictOrderedRing K]

theorem exec_inRange {f : InMemoryField K} (hs : 0 ≤ f.saturationScale) {op : Op K}
    (h : op.Nonneg) (hrows : ∀ r ∈ f.state, r.InRange) :
    ∀ r ∈ (f.exec op).2.state, r.InRange ∧
      ∀ bound, (∀ r₀ ∈ f.state, r₀.L ≤ bound) → r.L ≤ op.raise bound := by
  have hraise : ∀ bound : K, bound ≤ op.raise bound := fun bound => by
    cases op <;> first | exact le_max_left _ _ | exact le_rfl
  intro r hr
  rcases f.exec_rows h hr with hold | ⟨rfl, m, tags, rfl⟩ | ⟨r₀, hr₀, n, rowOp, hrow, rfl⟩
  · exact ⟨hrows r hold, fun bound hb => (hb r hold).trans (hraise bound)⟩
  · exact ⟨Row.defaultState_inRange, fun bound _ => le_max_right _ _⟩
  · have happly := fun bound (hb : r₀.L ≤ bound) =>
      (h.onRow hrow).apply hs f.decay (hrows r₀ hr₀) hb
    exact ⟨(happly _ le_rfl).1, fun bound hb =>
      (happly bound (hb r₀ hr₀)).2.trans (op.raise_onRow h bound hrow)⟩

/-- After any history every row is in range, and below any bound on the initial latencies raised
by the calls. -/
theorem run_inRange {f : InMemoryField K} (hs : 0 ≤ f.saturationScale)
    (hrows : ∀ r ∈ f.state, r.InRange) {ops : List (Op K)} (hops : ∀ op ∈ ops, op.Nonneg) :
    ∀ r ∈ (f.run ops).state, r.InRange ∧
      ∀ bound, (∀ r₀ ∈ f.state, r₀.L ≤ bound) → r.L ≤ ops.foldl Op.raise bound := by
  induction ops using List.reverseRecOn with
  | nil => exact fun r hr => ⟨hrows r hr, fun bound hb => hb r hr⟩
  | append_singleton ops op ih =>
    have hbefore := ih fun o ho => hops o (List.mem_append_left _ ho)
    have hstep := exec_inRange ((run_settings f ops).1 ▸ hs) (hops op (by simp))
      fun r hr => (hbefore r hr).1
    rw [run_snoc]
    refine fun r hr => ⟨(hstep r hr).1, fun bound hb => ?_⟩
    rw [List.foldl_append]
    exact (hstep r hr).2 _ fun r₀ h₀ => (hbefore r₀ h₀).2 bound hb

omit [IsStrictOrderedRing K] in
/-- Ids and rows are added and removed in pairs. -/
theorem run_rows {f : InMemoryField K} (h : f.state.length = f.nodeIds.length)
    (ops : List (Op K)) : (f.run ops).state.length = (f.run ops).nodeIds.length := by
  induction ops using List.reverseRecOn with
  | nil => exact h
  | append_singleton ops op ih =>
    rw [run_snoc]
    obtain ⟨rows, hlen, hg⟩ | ⟨m, tags, index, -, hg⟩ | ⟨m, i, index, -, hg⟩ :=
      (f.run ops).exec_cases op
    · rw [hg]; exact hlen.trans ih
    · simp [hg, ih]
    · simp [hg, List.length_eraseIdx, ih]

/-- Rows in range make a new field in range. -/
theorem new_inRange {ids : List String} {initial : Option (List (Row K))} {scale : K}
    {flags : Row.DecayFlags} {f : InMemoryField K}
    (hinit : ∀ rows, initial = some rows → ∀ r ∈ rows, r.InRange)
    (hnew : InMemoryField.new ids initial scale flags = .ok f) :
    f.state.length = f.nodeIds.length ∧ f.saturationScale = scale ∧ ∀ r ∈ f.state, r.InRange := by
  obtain ⟨rfl, hrows⟩ := eq_of_new hnew
  refine ⟨hrows, rfl, fun r hr => ?_⟩
  cases initial with
  | none => exact List.eq_of_mem_replicate hr ▸ Row.defaultState_inRange
  | some rows => exact hinit rows rfl r hr

end StigmergicMesh.InMemoryField
