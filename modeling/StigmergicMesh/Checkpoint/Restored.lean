import StigmergicMesh.Checkpoint.Snapshot
import StigmergicMesh.Field.Ranges
import StigmergicMesh.Router.Monotone

/-!
# Routing after a restored checkpoint

Deposits clamp what they are given; hydration writes what the checkpoint says. A field whose rows
are in range stays fit for routing exactly if the traces of the checkpoint are in range, and the
command that imports a checkpoint lets any traces through.
-/

namespace StigmergicMesh

/-- The traces that are present are in the ranges of their columns. -/
structure Traces.InRange {K : Type*} [Zero K] [One K] [LE K] (t : Traces K) : Prop where
  V : ∀ v, t.V = some v → 0 ≤ v ∧ v ≤ 1
  L : ∀ l, t.L = some l → 0 ≤ l
  S : ∀ s, t.S = some s → 0 ≤ s
  C : ∀ c, t.C = some c → 0 ≤ c ∧ c ≤ 1

namespace Checkpoint

open InMemoryField

section Definitions

variable {K : Type*} [Field K] [LinearOrder K]

/-- The restoring part of `_warmup_checkpoint`: an exception of `hydrate_from_snapshot` is
caught. -/
def warmupCheckpoint (m : CheckpointManager) (codec : Codec K) (reachable : Bool) (st : Stores)
    (f : InMemoryField K) : InMemoryField K :=
  match m.loadLatestCheckpoint codec reachable st with
  | none => f
  | some snapshot => (f.hydrateFromSnapshot Except.ok snapshot.toSnapshot).2

/-- `cmd_import` with a manager for its arguments; `none` if `_load_file` raises. -/
def cmdImport [FloorRing K] (m : CheckpointManager) (codec : Codec K) (input : Contents)
    (disk : DiskOutcome) (redis : RedisOutcome) (st : Stores) : Option (Location × Stores) :=
  match input.snapshot codec with
  | none => none
  | some snapshot => some (m.saveCheckpoint codec ⟨snapshot, disk, redis⟩ st)

/-- The traces of every tracked node of the checkpoint are in range. -/
def MatrixSnapshot.InRangeOn (s : MatrixSnapshot K) (f : InMemoryField K) : Prop :=
  ∀ e ∈ s.nodeMetrics.entries, e.1 ∈ f.nodeIds → (tracesOf e.2).InRange

/-- Under the weights, the V and C of every tracked node of the checkpoint are in the unit
interval, and its L and S, or the node's own where the checkpoint has none, do not outweigh eps. -/
def MatrixSnapshot.Fits (s : MatrixSnapshot K) (w : Weights K) (f : InMemoryField K) : Prop :=
  ∀ e ∈ s.nodeMetrics.entries, ∀ r, f.rowOf e.1 = some r →
    (∀ v, (tracesOf e.2).V = some v → 0 ≤ v ∧ v ≤ 1) ∧
    (∀ c, (tracesOf e.2).C = some c → 0 ≤ c ∧ c ≤ 1) ∧
    0 < w.beta * (tracesOf e.2).L.getD r.L + w.gamma * (tracesOf e.2).S.getD r.S + Router.eps

/-- The fields reached by nonnegative observations from rows in range, and by checkpoints whose
traces were in range. -/
inductive Reached : InMemoryField K → Prop
  | new (ids : List String) (initial : Option (List (Row K))) (scale : K)
      (flags : Row.DecayFlags) (f : InMemoryField K) (hs : 0 ≤ scale)
      (hinit : ∀ rows, initial = some rows → ∀ r ∈ rows, r.InRange)
      (hnew : InMemoryField.new ids initial scale flags = .ok f) : Reached f
  | call (f : InMemoryField K) (op : Op K) (hop : op.Nonneg) (hf : Reached f) :
      Reached (f.exec op).2
  | restored (f : InMemoryField K) (s : MatrixSnapshot K) (hs : s.InRangeOn f)
      (hf : Reached f) : Reached (f.hydrateFromSnapshot Except.ok s.toSnapshot).2

/-- What routing needs of the rows: V and C in the unit interval, positive denominators, and with
a node to route to probabilities. -/
structure Routable (router : Router ℝ) (weightsOverride : Option (Dict String ℝ))
    (state : List (Row ℝ)) : Prop where
  V : ∀ r ∈ state, 0 ≤ r.V ∧ r.V ≤ 1
  C : ∀ r ∈ state, 0 ≤ r.C ∧ r.C ≤ 1
  denominator_pos : ∀ r ∈ state,
    0 < Router.scoreDenominator (router.weightsFor weightsOverride) r
  wellDefined : 0 < router.temperature → state ≠ [] → router.WellDefined weightsOverride state
  draws : 0 < router.temperature → ∀ context ps,
    router.choiceProbabilities state context weightsOverride = .ok ps →
      (∀ p ∈ ps, 0 < p) ∧ ps.sum = 1

end Definitions

/-! ## The rows after hydration -/

section Rows

variable {K : Type*}

/-- A row after the loop is an old row, or the row of an entry's node with the entry's traces. -/
theorem mem_hydrateLoop {f : InMemoryField K} (h : f.Indexed)
    {es : List (String × Traces K)} (hes : (es.map Prod.fst).Nodup) (updated : Nat) {r : Row K}
    (hr : r ∈ (hydrateLoop Except.ok es updated f).2.state) :
    r ∈ f.state ∨ ∃ e ∈ es, ∃ r₀, f.rowOf e.1 = some r₀ ∧ r = r₀.overlay e.2 := by
  induction es generalizing f updated with
  | nil => exact Or.inl hr
  | cons p es ih =>
    obtain ⟨m, t⟩ := p
    obtain ⟨hm, hes⟩ := List.nodup_cons.mp hes
    obtain ⟨-, heq⟩ | ⟨i, r₁, hi, hrow, -, heq⟩ := h.hydrateLoop_cons m t es updated
    · rw [heq] at hr
      rcases ih h hes updated hr with hold | ⟨e, he, hrow⟩
      · exact Or.inl hold
      · exact Or.inr ⟨e, List.mem_cons_of_mem _ he, hrow⟩
    · rw [heq] at hr
      rcases ih ((RowsOnly.set f i _).indexed h) hes _ hr with hold | ⟨e, he, r₀, hr₀, rfl⟩
      · rcases List.mem_or_eq_of_mem_set hold with hold | rfl
        · exact Or.inl hold
        · exact Or.inr ⟨(m, t), List.mem_cons_self, r₁, hrow, rfl⟩
      · -- A later entry is of another node, whose row is still the old one.
        have hne : e.1 ≠ m := fun heq => hm (List.mem_map.mpr ⟨e, he, heq⟩)
        rw [h.rowOf_setRow hi, if_neg hne] at hr₀
        exact Or.inr ⟨e, List.mem_cons_of_mem _ he, r₀, hr₀, rfl⟩

theorem toSnapshot_nodeMetrics (s : MatrixSnapshot K) :
    s.toSnapshot.nodeMetrics = if s.nodeMetrics.entries = [] then .error .attributeError
      else .ok (s.nodeMetrics.mapValues tracesOf) := by
  by_cases hempty : s.nodeMetrics.entries = [] <;>
    simp [MatrixSnapshot.toSnapshot, Snapshot.nodeMetrics, Dict.mapValues, hempty]

theorem mem_hydrate_of_mem {f : InMemoryField K} (h : f.Indexed) (s : MatrixSnapshot K) {r : Row K}
    (hr : r ∈ (f.hydrateFromSnapshot Except.ok s.toSnapshot).2.state) :
    r ∈ f.state ∨ ∃ e ∈ s.nodeMetrics.entries, ∃ r₀, f.rowOf e.1 = some r₀ ∧
      r = r₀.overlay (tracesOf e.2) := by
  simp only [hydrateFromSnapshot, toSnapshot_nodeMetrics] at hr
  split at hr
  · exact Or.inl hr
  · rename_i m hm
    have hm : s.nodeMetrics.mapValues tracesOf = m := by
      split at hm
      · cases hm
      · exact Except.ok.inj hm
    subst hm
    rcases mem_hydrateLoop h (Dict.nodupKeys _) 0 hr with hold | ⟨e, he, r₀, hr₀, rfl⟩
    · exact Or.inl hold
    · obtain ⟨p, hp, rfl⟩ := List.mem_map.mp he
      exact Or.inr ⟨p, hp, r₀, hr₀, rfl⟩

theorem overlay_mem_hydrate {f : InMemoryField K} (h : f.Indexed) {s : MatrixSnapshot K}
    {e : String × Dict String K} (he : e ∈ s.nodeMetrics.entries) {r₀ : Row K}
    (hr₀ : f.rowOf e.1 = some r₀) :
    r₀.overlay (tracesOf e.2) ∈ (f.hydrateFromSnapshot Except.ok s.toSnapshot).2.state := by
  have hm : s.toSnapshot.nodeMetrics = .ok (s.nodeMetrics.mapValues tracesOf) := by
    rw [toSnapshot_nodeMetrics, if_neg (List.ne_nil_of_mem he)]
  have hget : (s.nodeMetrics.mapValues tracesOf).get? e.1 = some (tracesOf e.2) := by
    rw [Dict.get?_mapValues, (Dict.get?_eq_some_iff _ e.1 e.2).mpr he]
    rfl
  apply mem_state_of_rowOf (n := e.1)
  rw [(h.hydrateFromSnapshot hm).2 e.1, hget, hr₀]
  rfl

variable [Field K] [LinearOrder K]

theorem InRange.overlay {t : Traces K} (ht : t.InRange) {r : Row K} (hr : r.InRange) :
    (r.overlay t).InRange := by
  obtain ⟨V, L, S, C⟩ := t
  obtain ⟨hV, hL, hS, hC⟩ := ht
  refine ⟨?_, ?_, ?_, ?_, ?_, ?_⟩
  · cases V <;> [exact hr.V_nonneg; exact (hV _ rfl).1]
  · cases V <;> [exact hr.V_le_one; exact (hV _ rfl).2]
  · cases L <;> [exact hr.L_nonneg; exact hL _ rfl]
  · cases S <;> [exact hr.S_nonneg; exact hS _ rfl]
  · cases C <;> [exact hr.C_nonneg; exact (hC _ rfl).1]
  · cases C <;> [exact hr.C_le_one; exact (hC _ rfl).2]

variable [IsStrictOrderedRing K]

/-- Reached fields have their rows in range. -/
theorem Reached.inRange {f : InMemoryField K} (h : Reached f) :
    f.Indexed ∧ 0 ≤ f.saturationScale ∧ ∀ r ∈ f.state, r.InRange := by
  induction h with
  | new ids initial scale flags f hs hinit hnew =>
    obtain ⟨-, hscale, hrows⟩ := new_inRange hinit hnew
    exact ⟨indexed_new hnew, hscale ▸ hs, hrows⟩
  | call f op hop _ ih =>
    obtain ⟨hindexed, hs, hrows⟩ := ih
    refine ⟨hindexed.exec op, (f.exec_settings op).1 ▸ hs, fun r hr => ?_⟩
    exact (exec_inRange hs hop hrows r hr).1
  | restored f s hin _ ih =>
    obtain ⟨hindexed, hs, hrows⟩ := ih
    have hrowsOnly := f.hydrateFromSnapshot_rowsOnly Except.ok s.toSnapshot
    refine ⟨hrowsOnly.indexed hindexed, hrowsOnly.settings.1 ▸ hs, fun r hr => ?_⟩
    rcases mem_hydrate_of_mem hindexed s hr with hold | ⟨e, he, r₀, hr₀, rfl⟩
    · exact hrows r hold
    · have htracked : e.1 ∈ f.nodeIds := (hindexed.rowOf_isSome e.1).mp (by rw [hr₀]; rfl)
      exact InRange.overlay (hin e he htracked) (hrows r₀ (mem_state_of_rowOf hr₀))

end Rows

/-! ## Routing -/

theorem eps_lt_one : (Router.eps : ℝ) < 1 := by norm_num [Router.eps]

/-- Only nonnegative numbers are never outweighed. -/
theorem nonneg_of_forall_weights {l s : ℝ}
    (h : ∀ β γ : ℝ, 0 < β → 0 < γ → 0 < β * l + γ * s + Router.eps) : 0 ≤ l ∧ 0 ≤ s := by
  have outweighed : ∀ {x y : ℝ}, x < 0 → ∃ β : ℝ, 0 < β ∧ β * x + 1 * y + Router.eps ≤ 0 := by
    intro x y hx
    have hβ : (|y| + 1) / -x * x = -(|y| + 1) := by
      rw [div_neg, neg_mul, div_mul_cancel₀ _ hx.ne]
    refine ⟨(|y| + 1) / -x, div_pos (by positivity) (by linarith), ?_⟩
    rw [hβ]
    linarith [le_abs_self y, eps_lt_one]
  constructor <;> by_contra hneg
  · obtain ⟨β, hβ, hle⟩ := outweighed (y := s) (not_le.mp hneg)
    exact absurd (h β 1 hβ one_pos) (not_lt.mpr hle)
  · obtain ⟨γ, hγ, hle⟩ := outweighed (y := l) (not_le.mp hneg)
    refine absurd (h 1 γ one_pos hγ) (not_lt.mpr ?_)
    linarith

theorem routable_of_rows {router : Router ℝ} {weightsOverride : Option (Dict String ℝ)}
    {state : List (Row ℝ)}
    (h : ∀ r ∈ state, (0 ≤ r.V ∧ r.V ≤ 1) ∧ (0 ≤ r.C ∧ r.C ≤ 1) ∧
      0 < Router.scoreDenominator (router.weightsFor weightsOverride) r) :
    Routable router weightsOverride state where
  V r hr := (h r hr).1
  C r hr := (h r hr).2.1
  denominator_pos r hr := (h r hr).2.2
  wellDefined _ hne := Router.wellDefined_of_denominator_pos hne fun r hr => (h r hr).2.2
  draws _ context ps hps := by
    simp only [Router.choiceProbabilities] at hps
    split at hps
    · cases hps
    · exact router.computeProbabilities_distribution hps

/-- A hydration of a field in range leaves it fit for routing exactly if the checkpoint fits. -/
theorem routable_hydrate_iff {f : InMemoryField ℝ} (h : f.Indexed)
    (hrows : ∀ r ∈ f.state, r.InRange) (s : MatrixSnapshot ℝ) {router : Router ℝ}
    {weightsOverride : Option (Dict String ℝ)} (hw : (router.weightsFor weightsOverride).Pos) :
    Routable router weightsOverride (f.hydrateFromSnapshot Except.ok s.toSnapshot).2.state ↔
      s.Fits (router.weightsFor weightsOverride) f := by
  constructor
  · intro hroutable e he r₀ hr₀
    have hmem := overlay_mem_hydrate h he hr₀
    refine ⟨fun v hv => ?_, fun c hc => ?_, hroutable.denominator_pos _ hmem⟩
    · simpa [Row.overlay, hv] using hroutable.V _ hmem
    · simpa [Row.overlay, hc] using hroutable.C _ hmem
  · intro hfits
    refine routable_of_rows fun r hr => ?_
    rcases mem_hydrate_of_mem h s hr with hold | ⟨e, he, r₀, hr₀, rfl⟩
    · have hin := hrows r hold
      exact ⟨⟨hin.V_nonneg, hin.V_le_one⟩, ⟨hin.C_nonneg, hin.C_le_one⟩,
        Router.scoreDenominator_pos hw.nonneg hin.L_nonneg hin.S_nonneg⟩
    · obtain ⟨hV, hC, hpos⟩ := hfits e he r₀ hr₀
      have hin := hrows r₀ (mem_state_of_rowOf hr₀)
      refine ⟨?_, ?_, hpos⟩
      · simp only [Row.overlay]
        cases ht : (tracesOf e.2).V with
        | none => exact ⟨hin.V_nonneg, hin.V_le_one⟩
        | some v => exact hV v ht
      · simp only [Row.overlay]
        cases ht : (tracesOf e.2).C with
        | none => exact ⟨hin.C_nonneg, hin.C_le_one⟩
        | some c => exact hC c ht

/-- A checkpoint fits under all positive weights exactly if its traces are in range. -/
theorem forall_fits_iff {f : InMemoryField ℝ} (h : f.Indexed)
    (hrows : ∀ r ∈ f.state, r.InRange) (s : MatrixSnapshot ℝ) :
    (∀ w : Weights ℝ, w.Pos → s.Fits w f) ↔ s.InRangeOn f := by
  constructor
  · intro hfits e he htracked
    obtain ⟨r₀, hr₀⟩ := Option.isSome_iff_exists.mp ((h.rowOf_isSome e.1).mpr htracked)
    obtain ⟨hV, hC, -⟩ := hfits ⟨1, 1, 1, 1⟩ ⟨one_pos, one_pos, one_pos, one_pos⟩ e he r₀ hr₀
    obtain ⟨hL, hS⟩ := nonneg_of_forall_weights fun β γ hβ hγ =>
      (hfits ⟨1, β, γ, 1⟩ ⟨one_pos, hβ, hγ, one_pos⟩ e he r₀ hr₀).2.2
    exact ⟨hV, fun l hl => by simpa [hl] using hL, fun x hx => by simpa [hx] using hS, hC⟩
  · intro hin w hw e he r₀ hr₀
    have htracked : e.1 ∈ f.nodeIds := (h.rowOf_isSome e.1).mp (by rw [hr₀]; rfl)
    have ht := hin e he htracked
    have hrow := InRange.overlay ht (hrows r₀ (mem_state_of_rowOf hr₀))
    exact ⟨ht.V, ht.C, Router.scoreDenominator_pos hw.nonneg hrow.L_nonneg hrow.S_nonneg⟩

/-- Whatever checkpoint is loaded, a reached field is fit for routing under given positive weights
exactly if the checkpoint fits, and under all positive weights exactly if its traces are in
range. -/
theorem warmup_routable_iff {f : InMemoryField ℝ} (hf : Reached f) (m : CheckpointManager)
    (codec : Codec ℝ) (reachable : Bool) (st : Stores) :
    (∀ (router : Router ℝ) (o : Option (Dict String ℝ)), (router.weightsFor o).Pos →
      (Routable router o (warmupCheckpoint m codec reachable st f).state ↔
        ∀ s, m.loadLatestCheckpoint codec reachable st = some s →
          s.Fits (router.weightsFor o) f)) ∧
    ((∀ (router : Router ℝ) (o : Option (Dict String ℝ)), (router.weightsFor o).Pos →
      Routable router o (warmupCheckpoint m codec reachable st f).state) ↔
        ∀ s, m.loadLatestCheckpoint codec reachable st = some s → s.InRangeOn f) := by
  obtain ⟨hindexed, -, hrows⟩ := hf.inRange
  have hone : ∀ (router : Router ℝ) (o : Option (Dict String ℝ)), (router.weightsFor o).Pos →
      (Routable router o (warmupCheckpoint m codec reachable st f).state ↔
        ∀ s, m.loadLatestCheckpoint codec reachable st = some s →
          s.Fits (router.weightsFor o) f) := by
    intro router o hw
    cases hload : m.loadLatestCheckpoint codec reachable st with
    | none =>
      simp only [warmupCheckpoint, hload, reduceCtorEq, false_implies, implies_true, iff_true]
      exact routable_of_rows fun r hr => ⟨⟨(hrows r hr).V_nonneg, (hrows r hr).V_le_one⟩,
        ⟨(hrows r hr).C_nonneg, (hrows r hr).C_le_one⟩,
        Router.scoreDenominator_pos hw.nonneg (hrows r hr).L_nonneg (hrows r hr).S_nonneg⟩
    | some s =>
      simp only [warmupCheckpoint, hload, Option.some.injEq, forall_eq']
      exact routable_hydrate_iff hindexed hrows s hw
  refine ⟨hone, ?_⟩
  have hall : (∀ (router : Router ℝ) (o : Option (Dict String ℝ)), (router.weightsFor o).Pos →
      Routable router o (warmupCheckpoint m codec reachable st f).state) ↔
      ∀ w : Weights ℝ, w.Pos →
        ∀ s, m.loadLatestCheckpoint codec reachable st = some s → s.Fits w f := by
    constructor
    · intro h w hw
      exact (hone ⟨Dict.empty, w, 1⟩ none hw).mp (h ⟨Dict.empty, w, 1⟩ none hw)
    · exact fun h router o hw => (hone router o hw).mpr (h _ hw)
  rw [hall]
  constructor
  · exact fun h s hs => (forall_fits_iff hindexed hrows s).mp fun w hw => h w hw s hs
  · exact fun h w hw s hs => (forall_fits_iff hindexed hrows s).mpr (h s hs) w hw

/-! ## One imported file -/

/-- A checkpoint with one trace of node "a". -/
noncomputable def importedSnapshot (l : ℝ) : MatrixSnapshot ℝ :=
  ⟨100.0, "1.0", ⟨[("a", ⟨[("L", l)], by simp⟩)], by simp⟩, 0, 0⟩

def importedText (l : String) : String :=
  "\x7b\"timestamp\":100.0,\"version\":\"1.0\",\"node_metrics\":\x7b\"a\":\x7b\"L\":" ++ l ++
    "\x7d\x7d,\"entropy_rate\":0.0,\"total_routed_requests\":0\x7d"

/-- The reader and writer on one checkpoint and its text. -/
def codecOf (text : String) (s : MatrixSnapshot ℝ) : Codec ℝ where
  dump _ := text
  parse t := if t = text then some s else none

theorem load_import (text : String) (s : MatrixSnapshot ℝ) :
    ∃ location st, cmdImport ⟨false⟩ (codecOf text s) (.text text) .written .stored emptyStores =
        some (location, st) ∧
      CheckpointManager.loadLatestCheckpoint ⟨false⟩ (codecOf text s) true st = some s := by
  simp [cmdImport, Contents.snapshot, codecOf, CheckpointManager.saveCheckpoint,
    CheckpointManager.loadLatestCheckpoint, Disk.save, Disk.writeArchive, Disk.writeLatest,
    Disk.snapshot]

theorem reached_fresh : Reached fresh :=
  .new ["a", "b"] none 0.1 ⟨true, true⟩ fresh (by norm_num) (fun rows h => by cases h) rfl

theorem defaultWeights_pos :
    ((Router.new Dict.empty none none none : Router ℝ).weightsFor none).Pos := by
  constructor <;> norm_num [Router.weightsFor, Router.new, Dict.getD]

theorem warmup_routable_iff_latency :
    ∃ location st,
      cmdImport ⟨false⟩ (codecOf (importedText "2.0") (importedSnapshot 2.0))
          (.text (importedText "2.0")) .written .stored emptyStores = some (location, st) ∧
      Routable (Router.new Dict.empty none none none) none
        (warmupCheckpoint ⟨false⟩ (codecOf (importedText "2.0") (importedSnapshot 2.0)) true st
          fresh).state := by
  obtain ⟨location, st, himport, hload⟩ := load_import (importedText "2.0") (importedSnapshot 2.0)
  refine ⟨location, st, himport, ?_⟩
  refine (warmup_routable_iff reached_fresh ⟨false⟩ _ true st).2.mpr ?_ _ _ defaultWeights_pos
  rw [hload]
  rintro _ ⟨⟩ e he -
  obtain rfl := List.mem_singleton.mp he
  constructor <;> intro x hx <;> cases hx
  norm_num

/-- An imported latency of minus one makes the denominator of the score of its node negative. -/
theorem imported_latency_unroutable :
    Reached fresh ∧ ((Router.new Dict.empty none none none : Router ℝ).weightsFor none).Pos ∧
    ∃ location st,
      cmdImport ⟨false⟩ (codecOf (importedText "-1.0") (importedSnapshot (-1)))
          (.text (importedText "-1.0")) .written .stored emptyStores = some (location, st) ∧
      ¬ Routable (Router.new Dict.empty none none none) none
        (warmupCheckpoint ⟨false⟩ (codecOf (importedText "-1.0") (importedSnapshot (-1))) true st
          fresh).state := by
  obtain ⟨location, st, himport, hload⟩ := load_import (importedText "-1.0") (importedSnapshot (-1))
  refine ⟨reached_fresh, defaultWeights_pos, location, st, himport, fun h => ?_⟩
  simp only [warmupCheckpoint, hload] at h
  have hrow : fresh.rowOf "a" = some Row.defaultState := rfl
  have hpos := h.denominator_pos _ (overlay_mem_hydrate reached_fresh.inRange.1
    (s := importedSnapshot (-1)) List.mem_cons_self hrow)
  have htraces : tracesOf (⟨[("L", -1)], by simp⟩ : Dict String ℝ) =
      ⟨none, some (-1), none, none⟩ := by
    simp [tracesOf, Dict.get?]
  rw [htraces] at hpos
  norm_num [Router.scoreDenominator, Router.weightsFor, Router.new, Dict.getD, Row.overlay,
    Row.defaultState, Router.eps] at hpos

end Checkpoint

end StigmergicMesh
