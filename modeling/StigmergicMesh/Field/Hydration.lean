import StigmergicMesh.Field.Consistent

/-!
# Hydration that fails

`hydrate_from_snapshot` writes cell by cell: the nodes in the order of the mapping, within a node
the columns in the order V, L, S, C. A conversion that raises stops it there, and the cells before
stay written. The field is as before exactly if they already held what was written to them.
-/

namespace StigmergicMesh

/-- The columns of the state matrix. -/
inductive Column where
  | V
  | L
  | S
  | C
  deriving DecidableEq

namespace Column

variable {K α : Type*}

def get : Column → Row K → K
  | .V, r => r.V
  | .L, r => r.L
  | .S, r => r.S
  | .C, r => r.C

def set : Column → Row K → K → Row K
  | .V, r, y => { r with V := y }
  | .L, r, y => { r with L := y }
  | .S, r, y => { r with S := y }
  | .C, r, y => { r with C := y }

def trace : Column → Traces α → Option α
  | .V, t => t.V
  | .L, t => t.L
  | .S, t => t.S
  | .C, t => t.C

/-- The order of the columns. -/
def all : List Column := [.V, .L, .S, .C]

theorem get_set (c d : Column) (r : Row K) (y : K) :
    d.get (c.set r y) = if d = c then y else d.get r := by
  cases c <;> cases d <;> rfl

@[simp] theorem set_get (c : Column) (r : Row K) : c.set r (c.get r) = r := by
  cases c <;> rfl

theorem ext_get {r r' : Row K} (h : ∀ c : Column, c.get r = c.get r') : r = r' := by
  obtain ⟨V, L, S, C⟩ := r
  obtain ⟨V', L', S', C'⟩ := r'
  rw [Row.mk.injEq]
  exact ⟨h .V, h .L, h .S, h .C⟩

end Column

namespace InMemoryField

section Definitions

variable {K α : Type*} (float : α → Except FieldError K)

/-- The traces of some columns, each with the value that its cell holds. -/
def cellsOf (cs : List Column) (t : Traces α) (r : Row K) : List (α × K) :=
  cs.filterMap (fun c => (c.trace t).map (fun x => (x, c.get r)))

/-- The cells that the loop writes, in its order. -/
def cells (f : InMemoryField K) (entries : List (String × Traces α)) : List (α × K) :=
  entries.flatMap (fun e => ((f.rowOf e.1).map (cellsOf Column.all e.2)).getD [])

/-- Every value converts. -/
def Converts (cells : List (α × K)) : Prop := ∀ p ∈ cells, ∃ y, float p.1 = .ok y

/-- Up to the first value that does not convert, each converts to the number its cell holds. -/
def Held : List (α × K) → Prop
  | [] => True
  | (x, y) :: rest => ∀ z, float x = .ok z → z = y ∧ Held rest

end Definitions

variable {K α : Type*} {float : α → Except FieldError K}

/-! ## Held cells -/

theorem held_append {cells rest : List (α × K)} :
    Held float (cells ++ rest) ↔ Held float cells ∧ (Converts float cells → Held float rest) := by
  induction cells with
  | nil => simp [Held, Converts]
  | cons p cells ih =>
    obtain ⟨x, y⟩ := p
    simp only [List.cons_append, Held, ih, Converts, List.forall_mem_cons]
    cases hx : float x with
    | error e => simp
    | ok z => simp; tauto

theorem converts_append {cells rest : List (α × K)} :
    Converts float (cells ++ rest) ↔ Converts float cells ∧ Converts float rest := by
  simp only [Converts, List.forall_mem_append]

/-! ## One row -/

/-- The assignments to some columns of a row. -/
def writes (cs : List Column) (t : Traces α) : List ((Row K → K → Row K) × Option α) :=
  cs.map (fun c => (c.set, c.trace t))

theorem columns_eq (t : Traces α) : columns t = writes (K := K) Column.all t := rfl

variable (float) in
/-- Columns that are not assigned keep their value. -/
theorem get_writeColumns (cs : List Column) (t : Traces α) (r : Row K) {d : Column} (hd : d ∉ cs) :
    d.get (writeColumns float (writes cs t) r).2 = d.get r := by
  induction cs generalizing r with
  | nil => rfl
  | cons c cs ih =>
    have hne : d ≠ c := List.ne_of_not_mem_cons hd
    have hcs : d ∉ cs := List.not_mem_of_not_mem_cons hd
    simp only [writes, List.map_cons]
    cases hx : c.trace t with
    | none => exact ih r hcs
    | some x =>
      simp only [writeColumns]
      cases float x with
      | error e => rfl
      | ok y => exact (ih (c.set r y) hcs).trans (by rw [Column.get_set, if_neg hne])

variable (float) in
theorem writeColumns_ok_iff (cs : List Column) (t : Traces α) (r r' : Row K) :
    (writeColumns float (writes cs t) r).1 = .ok () ↔ Converts float (cellsOf cs t r') := by
  induction cs generalizing r with
  | nil => simp [writes, writeColumns, cellsOf, Converts]
  | cons c cs ih =>
    simp only [writes, List.map_cons, cellsOf, List.filterMap_cons]
    cases hx : c.trace t with
    | none => exact ih r
    | some x =>
      simp only [writeColumns, Option.map_some, Converts, List.forall_mem_cons]
      cases hf : float x with
      | error e => simp
      | ok y =>
        simp only [Except.ok.injEq, exists_eq', true_and]
        exact ih (c.set r y)

variable (float) in
/-- The row is as before exactly if its cells were held. -/
theorem writeColumns_eq_iff (cs : List Column) (hcs : cs.Nodup) (t : Traces α) (r : Row K) :
    (writeColumns float (writes cs t) r).2 = r ↔ Held float (cellsOf cs t r) := by
  induction cs generalizing r with
  | nil => simp [writes, writeColumns, cellsOf, Held]
  | cons c cs ih =>
    obtain ⟨hc, hcs⟩ := List.nodup_cons.mp hcs
    simp only [writes, List.map_cons, cellsOf, List.filterMap_cons]
    cases hx : c.trace t with
    | none => exact ih hcs r
    | some x =>
      simp only [writeColumns, Option.map_some, Held]
      cases hf : float x with
      | error e => simp
      | ok y =>
        simp only [Except.ok.injEq, forall_eq']
        by_cases hy : y = c.get r
        · subst hy
          rw [Column.set_get]
          exact (ih hcs r).trans (by simp [cellsOf])
        · -- The column keeps the new value to the end of the row.
          refine iff_of_false (fun heq => hy ?_) (fun h => hy h.1)
          have hget := get_writeColumns float cs t (c.set r y) hc
          rw [Column.get_set, if_pos rfl] at hget
          exact hget.symm.trans (congrArg c.get heq)

/-! ## The loop -/

theorem cells_cons (f : InMemoryField K) (m : String) (t : Traces α)
    (es : List (String × Traces α)) :
    f.cells ((m, t) :: es) =
      ((f.rowOf m).map (cellsOf Column.all t)).getD [] ++ f.cells es := rfl

theorem setRow_eq_iff {f : InMemoryField K} {i : Nat} (hi : i < f.state.length) (r : Row K) :
    { f with state := f.state.set i r } = f ↔ r = f.state[i] := by
  constructor
  · intro h
    have hget := congrArg (fun g : InMemoryField K => g.state[i]?) h
    simpa [hi] using hget
  · rintro rfl
    rw [List.set_getElem_self]

/-- Rewriting the row of a node leaves the cells of the other nodes alone. -/
theorem Indexed.cells_setRow {f : InMemoryField K} (h : f.Indexed) {m : String} {i : Nat}
    (hi : f.nodeIndex.get? m = some i) (r : Row K) {es : List (String × Traces α)}
    (hm : m ∉ es.map Prod.fst) :
    cells { f with state := f.state.set i r } es = f.cells es := by
  simp only [cells, List.flatMap]
  congr 1
  apply List.map_congr_left
  intro e he
  have hne : e.1 ≠ m := fun heq => hm (heq ▸ List.mem_map_of_mem he)
  rw [h.rowOf_setRow hi, if_neg hne]

variable (float) in
/-- The loop leaves the rows of nodes without an entry alone. -/
theorem Indexed.rowOf_hydrateLoop {f : InMemoryField K} (h : f.Indexed)
    {es : List (String × Traces α)} (updated : Nat) {m : String} (hm : m ∉ es.map Prod.fst) :
    (InMemoryField.hydrateLoop float es updated f).2.rowOf m = f.rowOf m := by
  induction es generalizing f updated with
  | nil => rfl
  | cons e es ih =>
    obtain ⟨n, t⟩ := e
    have hne : m ≠ n := List.ne_of_not_mem_cons hm
    have hm : m ∉ es.map Prod.fst := List.not_mem_of_not_mem_cons hm
    simp only [InMemoryField.hydrateLoop]
    cases hi : f.nodeIndex.get? n with
    | none => exact ih h updated hm
    | some i =>
      have hset := fun r => h.rowOf_setRow hi r m
      simp only [if_neg hne] at hset
      cases hrow : f.state[i]? with
      | none => simp only [hrow]
      | some row =>
        cases hw : writeColumns float (columns t) row with
        | mk result row' =>
          simp only [hrow, hw]
          cases result with
          | error e => exact hset row'
          | ok _ => exact (ih ((RowsOnly.set f i row').indexed h) _ hm).trans (hset row')

variable (float) in
/-- A row written before the loop stays if the loop has no entry for its node. -/
theorem Indexed.eq_of_hydrateLoop_setRow {f : InMemoryField K} (h : f.Indexed) {m : String}
    {i : Nat} (hi : f.nodeIndex.get? m = some i) {row row' : Row K} (hrow : f.rowOf m = some row)
    {es : List (String × Traces α)} (hm : m ∉ es.map Prod.fst) {updated : Nat}
    (heq : (InMemoryField.hydrateLoop float es updated
      { f with state := f.state.set i row' }).2 = f) :
    row' = row := by
  have hfinal := ((RowsOnly.set f i row').indexed h).rowOf_hydrateLoop float updated hm
  rw [heq, hrow, h.rowOf_setRow hi, if_pos rfl] at hfinal
  exact (Option.some.inj hfinal).symm

variable (float) in
/-- The loop raises unless every cell converts, and leaves the field as it was exactly if its
cells were held. -/
theorem Indexed.hydrateLoop_iff {f : InMemoryField K} (h : f.Indexed)
    {es : List (String × Traces α)} (hes : (es.map Prod.fst).Nodup) (updated : Nat) :
    ((∃ n, (InMemoryField.hydrateLoop float es updated f).1 = .ok n) ↔
        Converts float (f.cells es)) ∧
      ((InMemoryField.hydrateLoop float es updated f).2 = f ↔ Held float (f.cells es)) := by
  induction es generalizing f updated with
  | nil => simp [InMemoryField.hydrateLoop, cells, Converts, Held]
  | cons e es ih =>
    obtain ⟨m, t⟩ := e
    obtain ⟨hm, hes⟩ := List.nodup_cons.mp hes
    rw [cells_cons, held_append, converts_append]
    simp only [InMemoryField.hydrateLoop]
    cases hi : f.nodeIndex.get? m with
    | none => simpa [rowOf_of_index_none hi, Converts, Held] using ih h hes updated
    | some i =>
      obtain ⟨hlt, -, hget⟩ := h.index_some hi
      have hrow : f.state[i]? = some f.state[i] := List.getElem?_eq_getElem hlt
      have hof : f.rowOf m = some f.state[i] := hget ▸ hrow
      have hrowOk := writeColumns_ok_iff float Column.all t f.state[i] f.state[i]
      have hrowHeld := writeColumns_eq_iff float Column.all (by decide) t f.state[i]
      simp only [hrow, hof, Option.map_some, Option.getD_some, columns_eq]
      cases hw : writeColumns float (writes Column.all t) f.state[i] with
      | mk result row' =>
        rw [hw] at hrowOk hrowHeld
        cases result with
        | error e =>
          have hnot : ¬Converts float (cellsOf Column.all t f.state[i]) :=
            hrowOk.not.mp (by simp)
          simp only [reduceCtorEq, exists_false, hnot, false_and, false_implies, and_true,
            true_and]
          rw [setRow_eq_iff hlt]
          exact hrowHeld
        | ok _ =>
          have hconverts : Converts float (cellsOf Column.all t f.state[i]) := hrowOk.mp rfl
          by_cases hsame : row' = f.state[i]
          · subst hsame
            have hheld := hrowHeld.mp rfl
            obtain ⟨hok, heq⟩ := ih h hes (updated + 1)
            dsimp only
            rw [(setRow_eq_iff hlt f.state[i]).mpr rfl]
            exact ⟨hok.trans (and_iff_right hconverts).symm,
              heq.trans ⟨fun hr => ⟨hheld, fun _ => hr⟩, fun hr => hr.2 hconverts⟩⟩
          · -- No later entry is for this node, so its new row stays.
            have hset := ih ((RowsOnly.set f i row').indexed h) hes (updated + 1)
            rw [h.cells_setRow hi row' hm] at hset
            exact ⟨hset.1.trans (by simp [hconverts]), iff_of_false
              (fun heq => hsame (h.eq_of_hydrateLoop_setRow float hi hof hm heq))
              fun hh => hsame (hrowHeld.mpr hh.1)⟩

/-- A hydration that raises leaves the field as it was exactly if, up to the first value that does
not convert, the cells already held what the values convert to. -/
theorem Indexed.failed_hydration_iff {f : InMemoryField K} (h : f.Indexed)
    (float : α → Except FieldError K) (m : Dict String (Traces α)) :
    (∀ e, (f.hydrateFromSnapshot float (.dict (some m))).1 = .error e →
        (f.hydrateFromSnapshot float (.dict (some m))).2 = f) ↔
      Converts float (f.cells m.entries) ∨ Held float (f.cells m.entries) := by
  obtain ⟨hok, heq⟩ := h.hydrateLoop_iff float m.nodupKeys 0
  simp only [InMemoryField.hydrateFromSnapshot, Snapshot.nodeMetrics]
  cases hresult : (InMemoryField.hydrateLoop float m.entries 0 f).1 with
  | ok n =>
    have hconverts := hok.mp ⟨n, hresult⟩
    simp [hconverts]
  | error e =>
    have hnot : ¬Converts float (f.cells m.entries) := fun hc => by
      obtain ⟨n, hn⟩ := hok.mpr hc
      rw [hresult] at hn
      cases hn
    simp only [Except.error.injEq, forall_eq', hnot, false_or]
    exact heq

/-! ## A text among the traces -/

/-- `float` of numbers, and of the text "n/a" for `none`. -/
def floatOrText : Option ℚ → Except FieldError ℚ
  | some x => .ok x
  | none => .error (.valueError "could not convert string to float: 'n/a'")

/-- A fresh field over one node. -/
def singleNode : InMemoryField ℚ :=
  ⟨["a"], Dict.enumerate ["a"], [Row.defaultState], 0.1, ⟨true, true⟩⟩

/-- A success of `v` and a latency that is a text. -/
def textLatency (v : ℚ) : Dict String (Traces (Option ℚ)) :=
  ⟨[("a", ⟨some (some v), some none, none, none⟩)], by simp⟩

theorem indexed_singleNode : singleNode.Indexed := ⟨fun _ => rfl, rfl⟩

/-- The success of the baseline is one already. -/
theorem failed_hydration_iff_held :
    singleNode.hydrateFromSnapshot floatOrText (.dict (some (textLatency 1))) =
      (.error (.valueError "could not convert string to float: 'n/a'"), singleNode) := by
  refine Prod.ext rfl ?_
  refine (indexed_singleNode.failed_hydration_iff floatOrText (textLatency 1)).mpr (Or.inr ?_) _ rfl
  rintro z ⟨⟩
  exact ⟨rfl, fun z hz => by cases hz⟩

/-- The success is written before the latency raises. -/
theorem failed_hydration_writes :
    ∃ after, singleNode.hydrateFromSnapshot floatOrText (.dict (some (textLatency 0.5))) =
        (.error (.valueError "could not convert string to float: 'n/a'"), after) ∧
      singleNode.getStateVector = [⟨1, 0.1, 0, 1⟩] ∧ after.getStateVector = [⟨0.5, 0.1, 0, 1⟩] ∧
      after.getStateVector ≠ singleNode.getStateVector := by
  refine ⟨_, rfl, rfl, rfl, fun h => ?_⟩
  have hV : ((0.5 : ℚ) :: []) = [1] := congrArg (List.map Row.V) h
  norm_num at hV

end InMemoryField

end StigmergicMesh
