import StigmergicMesh.Field.Consistent
import Mathlib.Data.List.Induction

/-!
# The in-memory field as a finite map

Over histories of method calls the field is a finite map from node id to row. `Op.effect` is the
abstract meaning of a call at one node, and `Consistent.exec` says that every call has exactly that
effect at every node, so rows never leak between nodes however the matrix is shifted.

A `Life` is the abstract history of a tracked node: the row it started from and the operations
on it since. `Consistent.run` replays it.
-/

namespace StigmergicMesh.InMemoryField

variable {K : Type*}

/-- The calls that change an in-memory field. -/
inductive Op (K : Type*) where
  | addNode (nodeId : String) (capabilityTags : List String)
  | removeNode (nodeId : String)
  | depositTrace (nodeId : String) (trace : Trace K)
  | applyEvaporation (decayRate : K)
  | hydrateFromSnapshot (snapshot : Snapshot K)

/-- What can happen to one node's row. -/
inductive RowOp (K : Type*) where
  | deposit (trace : Trace K)
  | evaporate (decayRate : K)
  | hydrate (traces : Traces K)

/-- A tracked node: the row it started from and what happened to it since, oldest first. -/
structure Life (K : Type*) where
  start : Row K
  ops : List (RowOp K)

section Definitions

variable [Field K] [LinearOrder K]

/-- One call; a snapshot's values are floats already. -/
def exec (f : InMemoryField K) : Op K → Except FieldError Unit × InMemoryField K
  | .addNode n tags => (.ok (), f.addNode n tags)
  | .removeNode n => (.ok (), f.removeNode n)
  | .depositTrace n t => f.depositTrace n t
  | .applyEvaporation rate => f.applyEvaporation rate
  | .hydrateFromSnapshot s =>
    let (result, f') := f.hydrateFromSnapshot Except.ok s
    (result.map (fun _ => ()), f')

/-- A history of calls; a call that raises is caught by its caller. -/
def run (f : InMemoryField K) (ops : List (Op K)) : InMemoryField K :=
  ops.foldl (fun f op => (f.exec op).2) f

/-- How a call concerns the row of node `n`, if it does. -/
def Op.onRow (n : String) : Op K → Option (RowOp K)
  | .addNode _ _ => none
  | .removeNode _ => none
  | .depositTrace m t => if n = m then some (.deposit t) else none
  | .applyEvaporation rate => if 0 ≤ rate ∧ rate < 1 then some (.evaporate rate) else none
  | .hydrateFromSnapshot s =>
    match s.nodeMetrics with
    | .error _ => none
    | .ok m => (m.get? n).map .hydrate

def RowOp.apply (saturationScale : K) (flags : Row.DecayFlags) : RowOp K → Row K → Row K
  | .deposit t => Row.deposit saturationScale t
  | .evaporate rate => Row.evaporate flags rate
  | .hydrate traces => Row.overlay traces

/-- The abstract meaning of a call at node `n`. -/
def Op.effect (saturationScale : K) (flags : Row.DecayFlags) (n : String) (op : Op K)
    (r : Option (Row K)) : Option (Row K) :=
  match op with
  | .addNode m _ => if n = m then some (r.getD Row.defaultState) else r
  | .removeNode m => if n = m then none else r
  | op =>
    match op.onRow n with
    | none => r
    | some rowOp => r.map (rowOp.apply saturationScale flags)

/-- The row at the end of a life. -/
def Life.replay (saturationScale : K) (flags : Row.DecayFlags) (life : Life K) : Row K :=
  life.ops.foldl (fun r op => op.apply saturationScale flags r) life.start

/-- A node's life over one more call: it begins with the baseline row when the node is added and
ends when it is removed. -/
def Op.follow (n : String) (op : Op K) (life : Option (Life K)) : Option (Life K) :=
  match op with
  | .addNode m _ => if n = m then some (life.getD ⟨Row.defaultState, []⟩) else life
  | .removeNode m => if n = m then none else life
  | op =>
    match op.onRow n with
    | none => life
    | some rowOp => life.map (fun l => { l with ops := l.ops ++ [rowOp] })

/-- The life of node `n` over a history, from its initial row if it had one. -/
def lifeOf (n : String) (initial : Option (Row K)) (ops : List (Op K)) : Option (Life K) :=
  ops.foldl (fun life op => op.follow n life) (initial.map (fun r => ⟨r, []⟩))

end Definitions

variable [Field K] [LinearOrder K]

/-! ## One call -/

/-- What a call does to the shape of the field: nothing, a baseline row more under a new id, or
one id less and its row. -/
theorem exec_cases (f : InMemoryField K) (op : Op K) :
    RowsOnly f (f.exec op).2 ∨
      (∃ m tags index, op = .addNode m tags ∧
        (f.exec op).2 = { f with
          nodeIds := f.nodeIds ++ [m]
          nodeIndex := index
          state := f.state ++ [Row.defaultState] }) ∨
      ∃ m i index, op = .removeNode m ∧
        (f.exec op).2 = { f with
          nodeIds := f.nodeIds.eraseIdx i
          nodeIndex := index
          state := f.state.eraseIdx i } := by
  cases op with
  | addNode m tags =>
    cases hi : f.nodeIndex.get? m with
    | some i => exact .inl (by simpa [exec, addNode, hi] using .refl f)
    | none => exact .inr (.inl ⟨m, tags, _, rfl, by simp only [exec, addNode, hi]; rfl⟩)
  | removeNode m =>
    cases hi : f.nodeIndex.get? m with
    | none => exact .inl (by simpa [exec, removeNode, hi] using .refl f)
    | some i => exact .inr (.inr ⟨m, i, _, rfl, by simp only [exec, removeNode, hi]; rfl⟩)
  | depositTrace m t => exact .inl (f.depositTrace_rowsOnly m t)
  | applyEvaporation rate => exact .inl (f.applyEvaporation_rowsOnly rate)
  | hydrateFromSnapshot s => exact .inl (f.hydrateFromSnapshot_rowsOnly Except.ok s)

/-- No call changes the field's settings. -/
theorem exec_settings (f : InMemoryField K) (op : Op K) :
    (f.exec op).2.saturationScale = f.saturationScale ∧ (f.exec op).2.decay = f.decay := by
  obtain h | ⟨m, tags, index, -, h⟩ | ⟨m, i, index, -, h⟩ := f.exec_cases op
  · exact h.settings
  · rw [h]; exact ⟨rfl, rfl⟩
  · rw [h]; exact ⟨rfl, rfl⟩

theorem Indexed.effect_depositTrace {f : InMemoryField K} (h : f.Indexed) (m : String)
    (t : Trace K) (n : String) :
    (f.depositTrace m t).2.rowOf n =
      (Op.depositTrace m t).effect f.saturationScale f.decay n (f.rowOf n) := by
  rw [h.rowOf_depositTrace]
  by_cases hn : n = m <;> simp [Op.effect, Op.onRow, hn, RowOp.apply]

theorem effect_applyEvaporation (f : InMemoryField K) (rate : K) (n : String) :
    (f.applyEvaporation rate).2.rowOf n =
      (Op.applyEvaporation rate).effect f.saturationScale f.decay n (f.rowOf n) := by
  rw [f.rowOf_applyEvaporation]
  by_cases hr : 0 ≤ rate ∧ rate < 1 <;> simp [Op.effect, Op.onRow, hr, RowOp.apply]

/-- One call keeps the invariant, has its abstract effect at every node, and changes nothing
when it raises. -/
theorem Consistent.exec {f : InMemoryField K} (h : f.Consistent) (op : Op K) :
    Consistent (f.exec op).2 ∧
      (∀ n, (f.exec op).2.rowOf n = op.effect f.saturationScale f.decay n (f.rowOf n)) ∧
      ∀ e, (f.exec op).1 = .error e → (f.exec op).2 = f := by
  cases op with
  | addNode m tags =>
    obtain ⟨hc, hrow⟩ := h.addNode m tags
    exact ⟨hc, hrow, fun e he => by cases he⟩
  | removeNode m =>
    obtain ⟨hc, hrow⟩ := h.removeNode m
    exact ⟨hc, hrow, fun e he => by cases he⟩
  | depositTrace m t =>
    obtain ⟨hc, hres, hraise, -⟩ := h.depositTrace m t
    refine ⟨hc, h.indexed.effect_depositTrace m t, fun e he => hraise fun hm => ?_⟩
    rw [InMemoryField.exec, hres, if_pos hm] at he
    cases he
  | applyEvaporation rate =>
    obtain ⟨hc, hraise, -⟩ := h.applyEvaporation rate
    refine ⟨hc, f.effect_applyEvaporation rate, fun e he => hraise fun hr => ?_⟩
    simp [InMemoryField.exec, InMemoryField.applyEvaporation, hr] at he
  | hydrateFromSnapshot s =>
    obtain ⟨hc, hraise, hrow⟩ := h.hydrateFromSnapshot s
    refine ⟨hc, fun n => (hrow n).trans ?_, fun e he => ?_⟩
    · cases hm : s.nodeMetrics with
      | error _ => simp [Op.effect, Op.onRow, hm]
      | ok m => cases hg : m.get? n <;> simp [Op.effect, Op.onRow, hm, hg, RowOp.apply]
    · simp only [InMemoryField.exec] at he ⊢
      cases hres : (f.hydrateFromSnapshot Except.ok s).1 with
      | ok k => rw [hres] at he; cases he
      | error e' => exact hraise e' hres

/-- Following a life and replaying it is the abstract effect on the replayed row. -/
theorem replay_follow (scale : K) (flags : Row.DecayFlags) (n : String) (op : Op K)
    (life : Option (Life K)) :
    (op.follow n life).map (Life.replay scale flags) =
      op.effect scale flags n (life.map (Life.replay scale flags)) := by
  cases op with
  | addNode m tags =>
    by_cases hn : n = m <;> cases life <;> simp [Op.follow, Op.effect, hn, Life.replay]
  | removeNode m => by_cases hn : n = m <;> simp [Op.follow, Op.effect, hn]
  | depositTrace | applyEvaporation | hydrateFromSnapshot =>
    simp only [Op.follow, Op.effect]
    split <;> cases life <;> simp [Life.replay, List.foldl_append]

/-! ## Histories -/

theorem run_append (f : InMemoryField K) (ops ops' : List (Op K)) :
    f.run (ops ++ ops') = (f.run ops).run ops' :=
  List.foldl_append ..

theorem run_snoc (f : InMemoryField K) (ops : List (Op K)) (op : Op K) :
    f.run (ops ++ [op]) = ((f.run ops).exec op).2 := by
  simp [run, List.foldl_append]

theorem lifeOf_snoc (n : String) (initial : Option (Row K)) (ops : List (Op K)) (op : Op K) :
    lifeOf n initial (ops ++ [op]) = op.follow n (lifeOf n initial ops) := by
  simp [lifeOf, List.foldl_append]

theorem run_settings (f : InMemoryField K) (ops : List (Op K)) :
    (f.run ops).saturationScale = f.saturationScale ∧ (f.run ops).decay = f.decay := by
  induction ops using List.reverseRecOn with
  | nil => exact ⟨rfl, rfl⟩
  | append_singleton ops op ih =>
    obtain ⟨hs, hd⟩ := exec_settings (f.run ops) op
    rw [run_snoc]
    exact ⟨hs.trans ih.1, hd.trans ih.2⟩

/-- Every history keeps the invariant and leaves each node the replay of its life. -/
theorem Consistent.run {f : InMemoryField K} (h : f.Consistent) (ops : List (Op K)) :
    Consistent (f.run ops) ∧
      ∀ n, (f.run ops).rowOf n =
        (lifeOf n (f.rowOf n) ops).map (Life.replay f.saturationScale f.decay) := by
  induction ops using List.reverseRecOn with
  | nil =>
    refine ⟨h, fun n => ?_⟩
    cases hr : f.rowOf n <;> simp [InMemoryField.run, lifeOf, hr, Life.replay]
  | append_singleton ops op ih =>
    obtain ⟨hc, hrow⟩ := ih
    obtain ⟨hs, hd⟩ := run_settings f ops
    obtain ⟨hc', heff, -⟩ := hc.exec op
    rw [run_snoc]
    refine ⟨hc', fun n => ?_⟩
    rw [heff n, hs, hd, hrow n, lifeOf_snoc, replay_follow]

/-- The calls that add or remove no node. -/
def Op.FixesMembership : Op K → Prop
  | .addNode .. => False
  | .removeNode _ => False
  | _ => True

/-- While the membership is fixed a life goes on from its first row. -/
theorem lifeOf_of_fixed (n : String) (initial : Option (Row K)) {ops : List (Op K)}
    (hops : ∀ op ∈ ops, op.FixesMembership) :
    lifeOf n initial ops = initial.map (fun r => ⟨r, ops.filterMap (Op.onRow n)⟩) := by
  induction ops using List.reverseRecOn with
  | nil => rfl
  | append_singleton ops op ih =>
    rw [lifeOf_snoc, ih fun o ho => hops o (List.mem_append_left _ ho)]
    have hop := hops op (List.mem_append_right _ (List.mem_singleton.mpr rfl))
    cases op with
    | addNode => exact hop.elim
    | removeNode => exact hop.elim
    | depositTrace | applyEvaporation | hydrateFromSnapshot =>
      simp only [Op.follow, List.filterMap_append]
      split <;> rename_i h <;> cases initial <;> simp [h]

/-- The row a new field gives to node `n`: the row of the initial matrix at the node's position,
or the baseline. -/
def initialRow (ids : List String) (initial : Option (List (Row K))) (n : String) :
    Option (Row K) :=
  (initial.getD (List.replicate ids.length Row.defaultState))[ids.idxOf n]?

omit [LinearOrder K] in
/-- A new field has a row for each id: the given rows or the baseline. -/
theorem eq_of_new {ids : List String} {initial : Option (List (Row K))} {scale : K}
    {flags : Row.DecayFlags} {f : InMemoryField K}
    (hnew : InMemoryField.new ids initial scale flags = .ok f) :
    f = ⟨ids, Dict.enumerate ids,
        initial.getD (List.replicate ids.length Row.defaultState), scale, flags⟩ ∧
      (initial.getD (List.replicate ids.length Row.defaultState)).length = ids.length := by
  cases initial with
  | none =>
    obtain rfl := Except.ok.inj hnew
    exact ⟨rfl, by simp⟩
  | some rows =>
    simp only [InMemoryField.new] at hnew
    split at hnew
    · rename_i hlen
      obtain rfl := Except.ok.inj hnew
      exact ⟨rfl, hlen⟩
    · cases hnew

omit [LinearOrder K] in
/-- A new field over distinct ids satisfies the invariant and holds the initial rows. -/
theorem consistent_new {ids : List String} (hids : ids.Nodup) (initial : Option (List (Row K)))
    {scale : K} {flags : Row.DecayFlags} {f : InMemoryField K}
    (hnew : InMemoryField.new ids initial scale flags = .ok f) :
    f.Consistent ∧ f.saturationScale = scale ∧ f.decay = flags ∧
      ∀ n, f.rowOf n = initialRow ids initial n := by
  obtain ⟨hf, hrows⟩ := eq_of_new hnew
  have hc : f.Consistent := by
    subst hf
    exact ⟨hids, fun n i => Dict.get?_enumerate ids hids n i, hrows⟩
  refine ⟨hc, by rw [hf], by rw [hf], fun n => ?_⟩
  have hstate : f.state[ids.idxOf n]? = initialRow ids initial n := by rw [hf]; rfl
  have hnodes : f.nodeIds = ids := by rw [hf]
  by_cases hn : n ∈ ids
  · rw [← hstate]
    apply rowOf_of_index
    rw [hc.index, hnodes]
    exact List.getElem?_idxOf hn
  · have hnone : f.rowOf n = none := by
      rw [← Option.not_isSome_iff_eq_none, hc.rowOf_isSome, hnodes]
      exact hn
    rw [hnone, initialRow, List.idxOf_eq_length hn, List.getElem?_eq_none hrows.le]

/-! ## Ids that repeat -/

omit [LinearOrder K] in
theorem indexed_new {ids : List String} {initial : Option (List (Row K))} {scale : K}
    {flags : Row.DecayFlags} {f : InMemoryField K}
    (hnew : InMemoryField.new ids initial scale flags = .ok f) : f.Indexed := by
  obtain ⟨rfl, hrows⟩ := eq_of_new hnew
  exact ⟨fun _ => rfl, hrows⟩

theorem Indexed.exec {f : InMemoryField K} (h : f.Indexed) (op : Op K) :
    Indexed (f.exec op).2 := by
  cases op with
  | addNode m tags =>
    cases hi : f.nodeIndex.get? m with
    | some i => simpa [InMemoryField.exec, InMemoryField.addNode, hi] using h
    | none =>
      simp only [InMemoryField.exec, InMemoryField.addNode, hi]
      refine ⟨fun n => ?_, by simp [h.rows]⟩
      rw [Dict.enumerate_append_singleton, Dict.get?_set, Dict.get?_set, h.index]
  | removeNode m =>
    cases hi : f.nodeIndex.get? m with
    | none => simpa [InMemoryField.exec, InMemoryField.removeNode, hi] using h
    | some i =>
      simp only [InMemoryField.exec, InMemoryField.removeNode, hi]
      exact ⟨fun _ => rfl, by simp [List.length_eraseIdx, h.rows]⟩
  | depositTrace m t => exact (f.depositTrace_rowsOnly m t).indexed h
  | applyEvaporation rate => exact (f.applyEvaporation_rowsOnly rate).indexed h
  | hydrateFromSnapshot s => exact (f.hydrateFromSnapshot_rowsOnly Except.ok s).indexed h

/-- Whatever ids a field is built from, its index sends each to its last position. -/
theorem indexed_run {ids : List String} {initial : Option (List (Row K))} {scale : K}
    {flags : Row.DecayFlags} {f : InMemoryField K}
    (hnew : InMemoryField.new ids initial scale flags = .ok f) (ops : List (Op K)) :
    (f.run ops).Indexed := by
  induction ops using List.reverseRecOn with
  | nil => exact indexed_new hnew
  | append_singleton ops op ih =>
    rw [run_snoc]
    exact ih.exec op

/-- The in-memory field refines the map from node id to the replay of the node's own life. -/
theorem field_refines_map (ids : List String) (hids : ids.Nodup)
    (initial : Option (List (Row K))) (scale : K) (flags : Row.DecayFlags)
    (f₀ : InMemoryField K) (hnew : InMemoryField.new ids initial scale flags = .ok f₀)
    (ops : List (Op K)) :
    (f₀.run ops).nodeIds.Nodup ∧
      (∀ n i, (f₀.run ops).nodeIndex.get? n = some i ↔ (f₀.run ops).nodeIds[i]? = some n) ∧
      (f₀.run ops).state.length = (f₀.run ops).nodeIds.length ∧
      (∀ op e, ((f₀.run ops).exec op).1 = .error e → ((f₀.run ops).exec op).2 = f₀.run ops) ∧
      (∀ n, n ∈ (f₀.run ops).nodeIds ↔ (lifeOf n (initialRow ids initial n) ops).isSome) ∧
      ∀ n, (f₀.run ops).exportStateDict.get? n =
        (lifeOf n (initialRow ids initial n) ops).map (Life.replay scale flags) := by
  obtain ⟨hc₀, rfl, rfl, hinit⟩ := consistent_new hids initial hnew
  obtain ⟨hc, hrow⟩ := hc₀.run ops
  refine ⟨hc.nodup, hc.index, hc.rows, fun op => (hc.exec op).2.2, fun n => ?_, fun n => ?_⟩
  · rw [← hc.rowOf_isSome, hrow n, Option.isSome_map, hinit]
  · rw [hc.get?_exportStateDict, hrow n, hinit]

/-- Removing the first of two nodes moves the second node's row, and later calls still find it. -/
theorem field_refines_map_shifted :
    ∃ f₀ : InMemoryField ℚ,
      InMemoryField.new ["a", "b"] none (1 / 10) ⟨true, true⟩ = .ok f₀ ∧
      (f₀.run [.removeNode "a", .depositTrace "b" ⟨1, 5, false, 2, 1 / 2⟩,
        .applyEvaporation (1 / 2)]).exportStateDict.get? "b" =
        some ⟨1 / 4, 11 / 40, 1 / 10, 3 / 8⟩ := by
  refine ⟨_, rfl, ?_⟩
  refine ((field_refines_map ["a", "b"] (by decide) none (1 / 10) ⟨true, true⟩ _ rfl
    _).2.2.2.2.2 "b").trans ?_
  have hb : initialRow (K := ℚ) ["a", "b"] none "b" = some Row.defaultState := by
    simp [initialRow]
  have hne : "b" ≠ "a" := by decide
  rw [hb]
  norm_num [hne, lifeOf, Op.follow, Op.onRow, Life.replay, RowOp.apply, Row.deposit, Row.evaporate,
    Row.scale, Row.ewma, Row.successVal, Row.clampUnit, Row.defaultState]

end StigmergicMesh.InMemoryField
