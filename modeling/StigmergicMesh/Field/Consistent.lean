import StigmergicMesh.Field.InMemory

/-!
# Ids, index and rows stay in step

`Consistent` is the invariant of the in-memory field: distinct ids, an index that sends every id
to its position, and one row per id; `Indexed` is what holds of ids that repeat. Each method keeps
it, and moves the row of a node (`rowOf`) in the way its specification lemma says; the lemmas for
rows of other nodes are included in the same statement, so callers never unfold a method.
-/

namespace StigmergicMesh.InMemoryField

variable {K : Type*}

structure Consistent (f : InMemoryField K) : Prop where
  nodup : f.nodeIds.Nodup
  index : ∀ n i, f.nodeIndex.get? n = some i ↔ f.nodeIds[i]? = some n
  rows : f.state.length = f.nodeIds.length

/-- What is left of the invariant if ids may repeat: the index sends an id to its last position. -/
structure Indexed (f : InMemoryField K) : Prop where
  index : ∀ n, f.nodeIndex.get? n = (Dict.enumerate f.nodeIds).get? n
  rows : f.state.length = f.nodeIds.length

/-- The row the field holds for a node, through the index. -/
def rowOf (f : InMemoryField K) (n : String) : Option (Row K) :=
  (f.nodeIndex.get? n).bind (fun i => f.state[i]?)

theorem rowOf_of_index {f : InMemoryField K} {n : String} {i : Nat}
    (hi : f.nodeIndex.get? n = some i) : f.rowOf n = f.state[i]? := by
  simp [rowOf, hi]

theorem rowOf_of_index_none {f : InMemoryField K} {n : String}
    (hi : f.nodeIndex.get? n = none) : f.rowOf n = none := by
  simp [rowOf, hi]

theorem mem_state_of_rowOf {f : InMemoryField K} {n : String} {r : Row K}
    (h : f.rowOf n = some r) : r ∈ f.state := by
  obtain ⟨i, -, hi⟩ := Option.bind_eq_some_iff.mp h
  exact List.mem_of_getElem? hi

namespace Indexed

variable {f : InMemoryField K}

theorem index_none (h : f.Indexed) {n : String} (hn : f.nodeIndex.get? n = none) :
    n ∉ f.nodeIds := by
  rw [h.index] at hn
  rw [← Dict.isSome_enumerate, hn]
  simp

/-- An index entry points into both lists. -/
theorem index_some (h : f.Indexed) {n : String} {i : Nat} (hi : f.nodeIndex.get? n = some i) :
    i < f.state.length ∧ f.nodeIds[i]? = some n ∧ f.state[i]? = f.rowOf n := by
  have hid : f.nodeIds[i]? = some n := by
    rw [h.index] at hi
    exact Dict.getElem?_of_enumerate hi
  have hlt : i < f.nodeIds.length := (List.getElem?_eq_some_iff.mp hid).1
  exact ⟨by rw [h.rows]; exact hlt, hid, by simp [rowOf, hi]⟩

/-- Two nodes at one index are one node. -/
theorem index_inj (h : f.Indexed) {m n : String} {i : Nat}
    (hm : f.nodeIndex.get? m = some i) (hn : f.nodeIndex.get? n = some i) : m = n := by
  have hid := (h.index_some hm).2.1
  rw [(h.index_some hn).2.1] at hid
  exact (Option.some.inj hid).symm

theorem rowOf_isSome (h : f.Indexed) (n : String) : (f.rowOf n).isSome ↔ n ∈ f.nodeIds := by
  constructor
  · intro hr
    cases hi : f.nodeIndex.get? n with
    | none => simp [rowOf, hi] at hr
    | some i => exact List.mem_of_getElem? (h.index_some hi).2.1
  · intro hn
    have hi : (f.nodeIndex.get? n).isSome := by
      rw [h.index, Dict.isSome_enumerate]
      exact hn
    obtain ⟨i, hi⟩ := Option.isSome_iff_exists.mp hi
    obtain ⟨hlt, -, hrow⟩ := h.index_some hi
    simp [← hrow, hlt]

theorem get?_exportStateDict [Field K] [LinearOrder K] (h : f.Indexed) (n : String) :
    f.exportStateDict.get? n = f.rowOf n := by
  rw [exportStateDict, Dict.get?_ofList_zip_enumerate h.rows, ← h.index, rowOf]

end Indexed

namespace Consistent

variable {f : InMemoryField K}

theorem indexed (h : f.Consistent) : f.Indexed where
  index n := by
    ext i
    rw [h.index, Dict.get?_enumerate _ h.nodup]
  rows := h.rows

theorem index_none (h : f.Consistent) {n : String} (hn : f.nodeIndex.get? n = none) :
    n ∉ f.nodeIds :=
  h.indexed.index_none hn

/-- An index entry points into both lists. -/
theorem index_some (h : f.Consistent) {n : String} {i : Nat} (hi : f.nodeIndex.get? n = some i) :
    i < f.state.length ∧ f.nodeIds[i]? = some n ∧ f.state[i]? = f.rowOf n :=
  h.indexed.index_some hi

/-- Two nodes at one index are one node. -/
theorem index_inj (h : f.Consistent) {m n : String} {i : Nat}
    (hm : f.nodeIndex.get? m = some i) (hn : f.nodeIndex.get? n = some i) : m = n :=
  h.indexed.index_inj hm hn

theorem rowOf_isSome (h : f.Consistent) (n : String) : (f.rowOf n).isSome ↔ n ∈ f.nodeIds :=
  h.indexed.rowOf_isSome n

theorem get?_exportStateDict [Field K] [LinearOrder K] (h : f.Consistent) (n : String) :
    f.exportStateDict.get? n = f.rowOf n :=
  h.indexed.get?_exportStateDict n

end Consistent

/-! ## Rows written in place -/

/-- `g` is `f` with its rows rewritten in place. -/
def RowsOnly (f g : InMemoryField K) : Prop :=
  ∃ rows, rows.length = f.state.length ∧ g = { f with state := rows }

namespace RowsOnly

theorem refl (f : InMemoryField K) : RowsOnly f f := ⟨f.state, rfl, rfl⟩

theorem set (f : InMemoryField K) (i : Nat) (r : Row K) :
    RowsOnly f { f with state := f.state.set i r } :=
  ⟨_, List.length_set .., rfl⟩

theorem map (f : InMemoryField K) (u : Row K → Row K) :
    RowsOnly f { f with state := f.state.map u } :=
  ⟨_, List.length_map .., rfl⟩

theorem trans {f g h : InMemoryField K} (hfg : RowsOnly f g) (hgh : RowsOnly g h) :
    RowsOnly f h := by
  obtain ⟨_, hlen, rfl⟩ := hfg
  obtain ⟨rows, hlen', rfl⟩ := hgh
  exact ⟨rows, hlen'.trans hlen, rfl⟩

theorem nodeIds {f g : InMemoryField K} (h : RowsOnly f g) : g.nodeIds = f.nodeIds := by
  obtain ⟨_, -, rfl⟩ := h
  rfl

theorem settings {f g : InMemoryField K} (h : RowsOnly f g) :
    g.saturationScale = f.saturationScale ∧ g.decay = f.decay := by
  obtain ⟨_, -, rfl⟩ := h
  exact ⟨rfl, rfl⟩

theorem consistent {f g : InMemoryField K} (h : RowsOnly f g) (hf : f.Consistent) :
    g.Consistent := by
  obtain ⟨_, hlen, rfl⟩ := h
  exact ⟨hf.nodup, hf.index, hlen.trans hf.rows⟩

theorem indexed {f g : InMemoryField K} (h : RowsOnly f g) (hf : f.Indexed) : g.Indexed := by
  obtain ⟨_, hlen, rfl⟩ := h
  exact ⟨hf.index, hlen.trans hf.rows⟩

end RowsOnly

/-- Replacing one row leaves the other rows alone. -/
theorem Indexed.rowOf_setRow {f : InMemoryField K} (h : f.Indexed) {m : String} {i : Nat}
    (hi : f.nodeIndex.get? m = some i) (r : Row K) (n : String) :
    rowOf { f with state := f.state.set i r } n = if n = m then some r else f.rowOf n := by
  by_cases hn : n = m
  · subst hn
    simp [rowOf, hi, (h.index_some hi).1]
  · simp only [rowOf, if_neg hn]
    cases hj : f.nodeIndex.get? n with
    | none => rfl
    | some j =>
      have hij : i ≠ j := fun e => hn (h.index_inj hj (e ▸ hi))
      simp [List.getElem?_set_ne hij]

/-- `updateRow` at the index of a node. -/
theorem Indexed.updateRow_eq {f : InMemoryField K} (h : f.Indexed) {m : String} {i : Nat}
    (hi : f.nodeIndex.get? m = some i) (u : Row K → Row K) :
    ∃ r, f.rowOf m = some r ∧
      f.updateRow i u = (.ok (), { f with state := f.state.set i (u r) }) := by
  obtain ⟨hlt, -, hrow⟩ := h.index_some hi
  have hget : f.state[i]? = some f.state[i] := List.getElem?_eq_getElem hlt
  exact ⟨f.state[i], hrow ▸ hget, by simp [updateRow, hget]⟩

/-! ## Removal -/

/-- A position of the shortened lists is the same or the next position of the old ones. -/
theorem Consistent.getElem?_eraseIdx {f : InMemoryField K} (h : f.Consistent) {m n : String}
    {i j : Nat} (hi : f.nodeIndex.get? m = some i) (hj : (f.nodeIds.eraseIdx i)[j]? = some n) :
    n ≠ m ∧ (f.state.eraseIdx i)[j]? = f.rowOf n := by
  have hne : ∀ k : Nat, k ≠ i → f.nodeIds[k]? = some n → n ≠ m := by
    rintro k hk hkn rfl
    exact hk (Option.some.inj (((h.index n k).mpr hkn).symm.trans hi))
  rw [List.getElem?_eraseIdx] at hj ⊢
  split at hj <;> rename_i hji
  · rw [if_pos hji]
    exact ⟨hne j (by omega) hj, (h.index_some ((h.index n j).mpr hj)).2.2⟩
  · rw [if_neg hji]
    exact ⟨hne (j + 1) (by omega) hj, (h.index_some ((h.index n (j + 1)).mpr hj)).2.2⟩

theorem Consistent.mem_eraseIdx {f : InMemoryField K} (h : f.Consistent) {m n : String} {i : Nat}
    (hi : f.nodeIndex.get? m = some i) (hn : n ≠ m) (hmem : n ∈ f.nodeIds) :
    n ∈ f.nodeIds.eraseIdx i := by
  obtain ⟨k, hk⟩ := List.mem_iff_getElem?.mp hmem
  refine List.mem_eraseIdx_iff_getElem?.mpr ⟨k, ?_, hk⟩
  rintro rfl
  exact hn (h.index_inj ((h.index n k).mpr hk) hi)

/-- `remove_node`: the rows below the removed one move up and the rebuilt index follows them. -/
theorem Consistent.removeNode {f : InMemoryField K} (h : f.Consistent) (m : String) :
    Consistent (f.removeNode m) ∧
      ∀ n, (f.removeNode m).rowOf n = if n = m then none else f.rowOf n := by
  cases hi : f.nodeIndex.get? m with
  | none =>
    have heq : f.removeNode m = f := by simp [InMemoryField.removeNode, hi]
    rw [heq]
    refine ⟨h, fun n => ?_⟩
    by_cases hn : n = m
    · simp [hn, rowOf_of_index_none hi]
    · simp [hn]
  | some i =>
    have hnd : (f.nodeIds.eraseIdx i).Nodup := h.nodup.sublist (List.eraseIdx_sublist ..)
    have hlt : i < f.nodeIds.length := h.rows ▸ (h.index_some hi).1
    simp only [InMemoryField.removeNode, hi]
    refine ⟨⟨hnd, fun n j => Dict.get?_enumerate _ hnd n j, ?_⟩, fun n => ?_⟩
    · simp [List.length_eraseIdx, hlt, h.rows]
    · cases hg : (Dict.enumerate (f.nodeIds.eraseIdx i)).get? n with
      | some j =>
        obtain ⟨hn, hrow⟩ := h.getElem?_eraseIdx hi ((Dict.get?_enumerate _ hnd n j).mp hg)
        rw [if_neg hn]
        exact (rowOf_of_index hg).trans hrow
      | none =>
        refine (rowOf_of_index_none hg).trans ?_
        by_cases hn : n = m
        · rw [if_pos hn]
        · have hnot : n ∉ f.nodeIds := by
            intro hmem
            obtain ⟨j, hj⟩ := List.mem_iff_getElem?.mp (h.mem_eraseIdx hi hn hmem)
            rw [(Dict.get?_enumerate _ hnd n j).mpr hj] at hg
            cases hg
          have hnone : f.rowOf n = none := by
            rw [← Option.not_isSome_iff_eq_none, h.rowOf_isSome]
            exact hnot
          rw [if_neg hn, hnone]

/-! ## Hydration -/

/-- With values that convert, the four columns are written in one go. -/
theorem writeColumns_ok (t : Traces K) (r : Row K) :
    writeColumns Except.ok (columns t) r = (.ok (), r.overlay t) := by
  obtain ⟨_ | v, _ | l, _ | s, _ | c⟩ := t <;> rfl

theorem hydrateLoop_rowsOnly {α : Type*} (float : α → Except FieldError K)
    (es : List (String × Traces α)) (updated : Nat) (f : InMemoryField K) :
    RowsOnly f (hydrateLoop float es updated f).2 := by
  fun_induction hydrateLoop float es updated f with
  | case1 => exact .refl _
  | case2 _ _ _ _ _ _ ih => exact ih
  | case3 => exact .refl _
  | case4 => exact .set ..
  | case5 _ _ _ _ _ _ _ _ _ _ _ ih => exact (RowsOnly.set ..).trans ih

theorem hydrateFromSnapshot_rowsOnly {α : Type*} (float : α → Except FieldError K)
    (f : InMemoryField K) (s : Snapshot α) : RowsOnly f (f.hydrateFromSnapshot float s).2 := by
  unfold InMemoryField.hydrateFromSnapshot
  split
  · exact .refl f
  · exact hydrateLoop_rowsOnly float _ 0 f

/-- An entry that converts is passed over, or its traces are laid over the row of its node. -/
theorem Indexed.hydrateLoop_cons {f : InMemoryField K} (h : f.Indexed) (m : String) (t : Traces K)
    (es : List (String × Traces K)) (updated : Nat) :
    (f.nodeIndex.get? m = none ∧
      InMemoryField.hydrateLoop Except.ok ((m, t) :: es) updated f =
        InMemoryField.hydrateLoop Except.ok es updated f) ∨
    ∃ i r, f.nodeIndex.get? m = some i ∧ f.rowOf m = some r ∧ f.state[i]? = some r ∧
      InMemoryField.hydrateLoop Except.ok ((m, t) :: es) updated f =
        InMemoryField.hydrateLoop Except.ok es (updated + 1)
          { f with state := f.state.set i (r.overlay t) } := by
  cases hi : f.nodeIndex.get? m with
  | none =>
    refine Or.inl ⟨rfl, ?_⟩
    simp only [InMemoryField.hydrateLoop, hi]
  | some i =>
    obtain ⟨hlt, -, hget⟩ := h.index_some hi
    have hr : f.state[i]? = some f.state[i] := List.getElem?_eq_getElem hlt
    refine Or.inr ⟨i, f.state[i], rfl, hget ▸ hr, hr, ?_⟩
    simp only [InMemoryField.hydrateLoop, hi, hr, writeColumns_ok]

/-- The loop counts the entries whose node is tracked and overlays their rows. -/
theorem Indexed.hydrateLoop {f : InMemoryField K} (h : f.Indexed)
    (es : List (String × Traces K)) (hes : (es.map Prod.fst).Nodup) (updated : Nat) :
    (hydrateLoop Except.ok es updated f).1 =
        .ok (updated + (es.filter (fun p => p.1 ∈ f.nodeIds)).length) ∧
      ∀ n, (hydrateLoop Except.ok es updated f).2.rowOf n =
        match es.find? (fun p => p.1 = n) with
        | none => f.rowOf n
        | some p => (f.rowOf n).map (Row.overlay p.2) := by
  induction es generalizing f updated with
  | nil => exact ⟨rfl, fun n => rfl⟩
  | cons p es ih =>
    obtain ⟨m, t⟩ := p
    obtain ⟨hm, hes⟩ := List.nodup_cons.mp hes
    have hlater : es.find? (fun p => p.1 = m) = none := by
      simp only [List.find?_eq_none, decide_eq_true_eq]
      exact fun q hq he => hm (List.mem_map.mpr ⟨q, hq, he⟩)
    obtain ⟨hi, heq⟩ | ⟨i, r, hi, hr, -, heq⟩ := h.hydrateLoop_cons m t es updated
    · obtain ⟨hcount, hrow⟩ := ih h hes updated
      rw [heq]
      refine ⟨by simp [hcount, h.index_none hi], fun n => ?_⟩
      by_cases hn : m = n
      · subst hn
        rw [hrow m, hlater, rowOf_of_index_none hi]
        simp
      · rw [hrow n]
        simp [hn]
    · have hmem : m ∈ f.nodeIds := (h.rowOf_isSome m).mp (by simp [hr])
      obtain ⟨hcount, hrow⟩ := ih ((RowsOnly.set f i (r.overlay t)).indexed h) hes (updated + 1)
      rw [heq]
      refine ⟨?_, fun n => ?_⟩
      · simp only [hcount, List.filter_cons, hmem, decide_true, if_true, List.length_cons,
          Except.ok.injEq]
        omega
      · rw [hrow n, h.rowOf_setRow hi]
        by_cases hn : m = n
        · subst hn
          simp [hlater, hr]
        · simp [hn, Ne.symm hn]

/-- Traces that the rows already hold change nothing. -/
theorem Indexed.hydrateLoop_of_held {f : InMemoryField K} (h : f.Indexed)
    (es : List (String × Traces K))
    (hheld : ∀ p ∈ es, ∀ r, f.rowOf p.1 = some r → r.overlay p.2 = r) (updated : Nat) :
    (InMemoryField.hydrateLoop Except.ok es updated f).2 = f := by
  induction es generalizing updated with
  | nil => rfl
  | cons p es ih =>
    obtain ⟨m, t⟩ := p
    have hrest := ih fun q hq => hheld q (List.mem_cons_of_mem _ hq)
    obtain ⟨-, heq⟩ | ⟨i, r, -, hr, hstate, heq⟩ := h.hydrateLoop_cons m t es updated
    · rw [heq]
      exact hrest updated
    · have hsame : f.state.set i (r.overlay t) = f.state := by
        rw [hheld (m, t) List.mem_cons_self r hr]
        obtain ⟨hlt, rfl⟩ := List.getElem?_eq_some_iff.mp hstate
        exact List.set_getElem_self hlt
      rw [heq, hsame]
      exact hrest (updated + 1)

/-- `hydrate_from_snapshot` of node metrics that convert. -/
theorem Indexed.hydrateFromSnapshot {f : InMemoryField K} (h : f.Indexed) {s : Snapshot K}
    {m : Dict String (Traces K)} (hm : s.nodeMetrics = .ok m) :
    (f.hydrateFromSnapshot Except.ok s).1 =
        .ok (m.keys.filter (· ∈ f.nodeIds)).length ∧
      ∀ n, (f.hydrateFromSnapshot Except.ok s).2.rowOf n =
        match m.get? n with
        | none => f.rowOf n
        | some t => (f.rowOf n).map (Row.overlay t) := by
  obtain ⟨hcount, hrow⟩ := h.hydrateLoop m.entries m.nodupKeys 0
  simp only [InMemoryField.hydrateFromSnapshot, hm]
  refine ⟨?_, fun n => ?_⟩
  · rw [hcount, Dict.keys, List.filter_map, List.length_map, Nat.zero_add]
    rfl
  · rw [hrow n]
    simp only [Dict.get?]
    cases m.entries.find? (fun p => p.1 = n) <;> rfl

/-- `hydrate_from_snapshot` with values that convert: raises only without node metrics,
changing nothing; otherwise overlays the named nodes' traces. -/
theorem Consistent.hydrateFromSnapshot {f : InMemoryField K} (h : f.Consistent)
    (s : Snapshot K) :
    Consistent (f.hydrateFromSnapshot Except.ok s).2 ∧
      (∀ e, (f.hydrateFromSnapshot Except.ok s).1 = .error e →
        (f.hydrateFromSnapshot Except.ok s).2 = f) ∧
      ∀ n, (f.hydrateFromSnapshot Except.ok s).2.rowOf n =
        match s.nodeMetrics with
        | .error _ => f.rowOf n
        | .ok m => match m.get? n with
          | none => f.rowOf n
          | some t => (f.rowOf n).map (Row.overlay t) := by
  cases hm : s.nodeMetrics with
  | error e => simp [InMemoryField.hydrateFromSnapshot, hm, h]
  | ok m =>
    obtain ⟨hcount, hrow⟩ := h.indexed.hydrateFromSnapshot hm
    exact ⟨(f.hydrateFromSnapshot_rowsOnly Except.ok s).consistent h, by simp [hcount], hrow⟩

/-! ## Addition, deposit, evaporation -/

variable [Field K]

omit [Field K] in
/-- The index after a new id has been appended. -/
theorem Consistent.index_append {f : InMemoryField K} (h : f.Consistent) {m : String}
    (hm : m ∉ f.nodeIds) (n : String) (i : Nat) :
    (f.nodeIndex.set m f.nodeIds.length).get? n = some i ↔
      (f.nodeIds ++ [m])[i]? = some n := by
  rw [Dict.get?_set]
  by_cases hn : n = m
  · subst hn
    have hold : f.nodeIds[i]? ≠ some n := fun he => hm (List.mem_of_getElem? he)
    rw [if_pos rfl, List.getElem?_append]
    split
    · constructor
      · intro he; have := Option.some.inj he; omega
      · intro he; exact absurd he hold
    · rw [List.getElem?_singleton]
      split <;> simp <;> omega
  · rw [if_neg hn, h.index, List.getElem?_append]
    split
    · rfl
    · rename_i hlt
      rw [List.getElem?_eq_none (by omega), List.getElem?_singleton]
      split <;> simp [Ne.symm hn]

/-- `add_node`: a new id gets the baseline row at the end; a known id changes nothing. -/
theorem Consistent.addNode {f : InMemoryField K} (h : f.Consistent) (m : String)
    (tags : List String) :
    Consistent (f.addNode m tags) ∧
      ∀ n, (f.addNode m tags).rowOf n =
        if n = m then some ((f.rowOf n).getD Row.defaultState) else f.rowOf n := by
  cases hi : f.nodeIndex.get? m with
  | some i =>
    have heq : f.addNode m tags = f := by simp [InMemoryField.addNode, hi]
    have hsome : (f.rowOf m).isSome :=
      (h.rowOf_isSome m).mpr (List.mem_of_getElem? (h.index_some hi).2.1)
    obtain ⟨r, hr⟩ := Option.isSome_iff_exists.mp hsome
    rw [heq]
    refine ⟨h, fun n => ?_⟩
    by_cases hn : n = m
    · simp [hn, hr]
    · simp [hn]
  | none =>
    have hm := h.index_none hi
    simp only [InMemoryField.addNode, hi]
    refine ⟨⟨?_, h.index_append hm, by simp [h.rows]⟩, fun n => ?_⟩
    · exact h.nodup.append (List.nodup_singleton m) (by simpa using hm)
    · simp only [rowOf, Dict.get?_set]
      by_cases hn : n = m
      · subst hn
        simp [hi, ← h.rows]
      · simp only [if_neg hn]
        cases hj : f.nodeIndex.get? n with
        | none => rfl
        | some j => simp [List.getElem?_append_left (h.index_some hj).1]

theorem Consistent.mem_addNode {f : InMemoryField K} (h : f.Consistent) (m : String)
    (tags : List String) (n : String) :
    n ∈ (f.addNode m tags).nodeIds ↔ n = m ∨ n ∈ f.nodeIds := by
  obtain ⟨hc, hrow⟩ := h.addNode m tags
  rw [← hc.rowOf_isSome, hrow]
  by_cases hn : n = m
  · simp [hn]
  · simp [hn, h.rowOf_isSome]

variable [LinearOrder K]

theorem depositTrace_rowsOnly (f : InMemoryField K) (m : String) (t : Trace K) :
    RowsOnly f (f.depositTrace m t).2 := by
  unfold InMemoryField.depositTrace updateRow
  split
  · exact .refl f
  · split
    · exact .refl f
    · exact .set f _ _

theorem applyEvaporation_rowsOnly (f : InMemoryField K) (rate : K) :
    RowsOnly f (f.applyEvaporation rate).2 := by
  unfold InMemoryField.applyEvaporation
  split
  · exact .map f _
  · exact .refl f

/-- A deposit updates the row of its node, if it is known, and no other. -/
theorem Indexed.rowOf_depositTrace {f : InMemoryField K} (h : f.Indexed) (m : String)
    (t : Trace K) (n : String) :
    (f.depositTrace m t).2.rowOf n =
      if n = m then (f.rowOf n).map (Row.deposit f.saturationScale t) else f.rowOf n := by
  cases hi : f.nodeIndex.get? m with
  | none =>
    have heq : f.depositTrace m t = (.error (.keyError m), f) := by
      simp [InMemoryField.depositTrace, indexOf, hi]
    rw [heq]
    by_cases hn : n = m
    · simp [hn, rowOf_of_index_none hi]
    · simp [hn]
  | some i =>
    obtain ⟨r, hr, hu⟩ := h.updateRow_eq hi (Row.deposit f.saturationScale t)
    have heq : f.depositTrace m t =
        (.ok (), { f with state := f.state.set i (r.deposit f.saturationScale t) }) := by
      simp [InMemoryField.depositTrace, indexOf, hi, hu]
    rw [heq, h.rowOf_setRow hi (r.deposit f.saturationScale t) n]
    by_cases hn : n = m
    · subst hn; simp [hr]
    · simp [hn]

/-- `deposit_trace`: raises exactly for an unknown node, changing nothing; otherwise updates the
node's row and no other. -/
theorem Consistent.depositTrace {f : InMemoryField K} (h : f.Consistent) (m : String)
    (t : Trace K) :
    Consistent (f.depositTrace m t).2 ∧
      (f.depositTrace m t).1 = (if m ∈ f.nodeIds then .ok () else .error (.keyError m)) ∧
      (m ∉ f.nodeIds → (f.depositTrace m t).2 = f) ∧
      ∀ n, (f.depositTrace m t).2.rowOf n =
        if n = m then (f.rowOf n).map (Row.deposit f.saturationScale t) else f.rowOf n := by
  refine ⟨(f.depositTrace_rowsOnly m t).consistent h, ?_, ?_, h.indexed.rowOf_depositTrace m t⟩
  all_goals
    cases hi : f.nodeIndex.get? m with
    | none => simp [InMemoryField.depositTrace, indexOf, hi, h.index_none hi]
    | some i =>
      obtain ⟨r, hr, hu⟩ := h.indexed.updateRow_eq hi (Row.deposit f.saturationScale t)
      have hmem : m ∈ f.nodeIds := List.mem_of_getElem? (h.index_some hi).2.1
      simp [InMemoryField.depositTrace, indexOf, hi, hu, hmem]

/-- An evaporation scales every row, if its rate is accepted. -/
theorem rowOf_applyEvaporation (f : InMemoryField K) (rate : K) (n : String) :
    (f.applyEvaporation rate).2.rowOf n =
      if 0 ≤ rate ∧ rate < 1 then (f.rowOf n).map (Row.evaporate f.decay rate)
      else f.rowOf n := by
  by_cases hr : 0 ≤ rate ∧ rate < 1
  · simp only [InMemoryField.applyEvaporation, hr]
    cases hi : f.nodeIndex.get? n <;> simp [rowOf, hi]
  · simp [InMemoryField.applyEvaporation, hr]

/-- `apply_evaporation`: raises exactly outside `[0, 1)`, changing nothing; otherwise scales
every row. -/
theorem Consistent.applyEvaporation {f : InMemoryField K} (h : f.Consistent) (rate : K) :
    Consistent (f.applyEvaporation rate).2 ∧
      (¬(0 ≤ rate ∧ rate < 1) → (f.applyEvaporation rate).2 = f) ∧
      ∀ n, (f.applyEvaporation rate).2.rowOf n =
        if 0 ≤ rate ∧ rate < 1 then (f.rowOf n).map (Row.evaporate f.decay rate)
        else f.rowOf n := by
  refine ⟨(f.applyEvaporation_rowsOnly rate).consistent h, fun hr => ?_,
    f.rowOf_applyEvaporation rate⟩
  simp [InMemoryField.applyEvaporation, hr]

end StigmergicMesh.InMemoryField
