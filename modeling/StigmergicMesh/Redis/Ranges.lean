import StigmergicMesh.Redis.Coroutines

/-!
# The range of the stored traces

Every trace in the store is in its range, and so is every value in flight: the hashes read but not
yet written back, the mappings of the pipelines under way, the arguments of the scripts under way.
The invariant says it of the store, the annotations of the calls say it of what they carry, so no
interleaving can break it; how stale a carried value is does not matter.
-/

namespace StigmergicMesh.Redis

variable {K : Type*} [Field K] [LinearOrder K]

/-! ## What is in range -/

section Definitions

/-- The traces that the hash has are in their ranges. -/
structure NodeHash.InRange (h : NodeHash K) : Prop where
  V : ∀ v, h.V = some v → 0 ≤ v ∧ v ≤ 1
  L : ∀ l, h.L = some l → 0 ≤ l
  S : ∀ s, h.S = some s → 0 ≤ s
  C : ∀ c, h.C = some c → 0 ≤ c ∧ c ≤ 1

def Store.InRange (s : Store K) : Prop := ∀ key h, s key = some h → h.InRange

/-- The settings of a client: `decay_rate` in `[0, 1)`, a positive interval, a nonnegative
`saturation_scale`. -/
structure RedisField.Valid (f : RedisField K) : Prop where
  decayRate_nonneg : 0 ≤ f.decayRate
  decayRate_lt_one : f.decayRate < 1
  interval_pos : 0 < f.decayIntervalSec
  scale_nonneg : 0 ≤ f.saturationScale

/-- The mapping that `hydrate_from_snapshot` writes for a node. -/
def mappingOf (t : Traces K) (ts : K) : NodeHash K := ⟨t.V, t.L, t.S, t.C, some ts⟩

/-- A call with a nonnegative observation, or with a snapshot whose traces are in range. -/
def Call.Nonneg : Call K → Prop
  | .depositTrace _ t => 0 ≤ t.latencySec ∧ 0 ≤ t.activeLoad
  | .hydrateFromSnapshot snapshot => ∀ m, snapshot.nodeMetrics = .ok m →
    ∀ e ∈ m.entries, (mappingOf e.2 0).InRange
  | _ => True

/-- Such a call that has passed the check of its rate. -/
def Call.Checked (c : Call K) : Prop :=
  c.Nonneg ∧ ∀ rate, c = .applyEvaporation rate → 0 ≤ rate ∧ rate < 1

def Request.InRange : Request K → Prop
  | .hset mappings => ∀ m ∈ mappings, m.2.InRange
  | .evalsha _ args => ∃ f : RedisField K, f.Valid ∧ ∃ now t,
    0 ≤ t.latencySec ∧ 0 ≤ t.activeLoad ∧ args = f.scriptArgs now t
  | _ => True

def Reply.InRange : Reply K → Prop
  | .done => True
  | .hashes raws => ∀ h ∈ raws, h.InRange

def Wait.InRange : Wait K → Prop
  | .baselines c => c.Checked
  | .script c => c.Checked
  | .evaporation factor _ => 0 ≤ factor ∧ factor ≤ 1
  | _ => True

/-- What a call carries at a point. -/
def Point.InRange : Point K → Prop
  | .start c => c.Nonneg
  | .lock c => c.Checked
  | .sent r w => r.InRange ∧ w.InRange
  | .replied _ a w => a.InRange ∧ w.InRange
  | .returned _ => True
  | .raised _ => True

def Turn.InRange (t : Turn K) : Prop := t.field.Valid ∧ t.point.InRange

def Mesh.InRange (x : Mesh K) : Prop :=
  x.store.InRange ∧ ∀ i f locked, x.client i = some (f, locked) → f.Valid

/-- The settings of a new client are valid, the arguments of a call nonnegative. -/
def MeshEvent.Valid : MeshEvent K → Prop
  | .spawn _ call => call.2.Nonneg
  | .resume _ _ => True
  | .external c => (RedisField.new c.nodeIds c.saturationScale c.decay c.decayRate
    c.decayIntervalSec).Valid

end Definitions

/-! ## Hashes -/

omit [LinearOrder K] [Field K] in
theorem forall_some_iff_getD {o : Option K} {d : K} {P : K → Prop} (hd : P d) :
    (∀ x, o = some x → P x) ↔ P (o.getD d) := by
  cases o <;> simp [hd]

section Hash

variable [IsStrictOrderedRing K]

/-- A missing trace reads as its baseline, which is in range. -/
theorem NodeHash.inRange_iff {h : NodeHash K} : h.InRange ↔ h.row.InRange := by
  have hV := forall_some_iff_getD (o := h.V) (d := 1) (P := fun v => 0 ≤ v ∧ v ≤ 1) (by simp)
  have hL := forall_some_iff_getD (o := h.L) (d := 0.1) (P := fun l => 0 ≤ l) (by norm_num)
  have hS := forall_some_iff_getD (o := h.S) (d := 0) (P := fun s => 0 ≤ s) le_rfl
  have hC := forall_some_iff_getD (o := h.C) (d := 1) (P := fun c => 0 ≤ c ∧ c ≤ 1) (by simp)
  constructor
  · rintro ⟨V, L, S, C⟩
    exact ⟨(hV.mp V).1, (hV.mp V).2, hL.mp L, hS.mp S, (hC.mp C).1, (hC.mp C).2⟩
  · rintro ⟨V₀, V₁, L, S, C₀, C₁⟩
    exact ⟨hV.mpr ⟨V₀, V₁⟩, hL.mpr L, hS.mpr S, hC.mpr ⟨C₀, C₁⟩⟩

theorem NodeHash.inRange_ofRow {r : Row K} (h : r.InRange) (ts : K) :
    (NodeHash.ofRow r ts).InRange :=
  NodeHash.inRange_iff.mpr h

omit [IsStrictOrderedRing K] in
theorem NodeHash.InRange.hset {h u : NodeHash K} (hh : h.InRange) (hu : u.InRange) :
    (h.hset u).InRange := by
  have pick : ∀ {o p : Option K} {P : K → Prop}, (∀ x, o = some x → P x) →
      (∀ x, p = some x → P x) → ∀ x, o.or p = some x → P x := by
    intro o p P ho hp x hx
    cases o with
    | none => exact hp x (by simpa using hx)
    | some y => exact ho x (by simpa using hx)
  exact ⟨pick hu.V hh.V, pick hu.L hh.L, pick hu.S hh.S, pick hu.C hh.C⟩

/-- What an evaporation computes from a hash in range is in range, whenever the hash was read. -/
theorem NodeHash.InRange.evaporationUpdates {h : NodeHash K} (hh : h.InRange)
    (flags : Row.DecayFlags) {factor : K} (h₀ : 0 ≤ factor) (h₁ : factor ≤ 1) (now : K) :
    (RedisField.evaporationUpdates flags factor now h).InRange := by
  have hrow := (NodeHash.inRange_iff.mp hh).scale ⟨true, true⟩ h₀ h₁
  constructor
  · intro v hv
    simp only [RedisField.evaporationUpdates] at hv
    split at hv <;> cases hv
    exact ⟨hrow.V_nonneg, hrow.V_le_one⟩
  · rintro l ⟨⟩
    exact hrow.L_nonneg
  · rintro s ⟨⟩
    exact hrow.S_nonneg
  · intro c hc
    simp only [RedisField.evaporationUpdates] at hc
    split at hc <;> cases hc
    exact ⟨hrow.C_nonneg, hrow.C_le_one⟩

/-! ## Stores -/

omit [IsStrictOrderedRing K] in
theorem Store.InRange.hgetall {s : Store K} (h : s.InRange) (key : String) :
    (s.hgetall key).InRange := by
  cases hk : s key with
  | none => simp [Store.hgetall, hk, NodeHash.empty]; constructor <;> simp
  | some x => simpa [Store.hgetall, hk] using h key x hk

omit [IsStrictOrderedRing K] in
theorem Store.InRange.update {s : Store K} (h : s.InRange) (key : String) {x : NodeHash K}
    (hx : x.InRange) : Store.InRange (Function.update s key (some x)) := by
  intro k y hy
  by_cases hk : k = key
  · subst hk
    obtain rfl : x = y := by simpa using hy
    exact hx
  · exact h k y (by simpa [hk] using hy)

omit [IsStrictOrderedRing K] in
theorem Store.InRange.hsetAll {mappings : List (String × NodeHash K)} {s : Store K}
    (h : s.InRange) (hm : ∀ m ∈ mappings, m.2.InRange) : (s.hsetAll mappings).InRange := by
  induction mappings generalizing s with
  | nil => exact h
  | cons m mappings ih =>
    refine ih (h.update _ ((h.hgetall _).hset (hm m List.mem_cons_self))) fun m' hm' => ?_
    exact hm m' (List.mem_cons_of_mem m hm')

omit [IsStrictOrderedRing K] in
theorem Store.InRange.delete {s : Store K} (h : s.InRange) (key : String) :
    (s.delete key).InRange := by
  intro k y hy
  by_cases hk : k = key
  · subst hk
    simp [Store.delete] at hy
  · exact h k y (by simpa [Store.delete, hk] using hy)

end Hash

/-! ## The script -/

/-- Whatever the clocks show, the lazy decay scales by a factor of the unit interval. -/
theorem RedisField.Valid.lazyFactor_mem {f : RedisField ℝ} (h : f.Valid) (now : ℝ)
    (x : NodeHash ℝ) : 0 ≤ f.lazyFactor now x ∧ f.lazyFactor now x ≤ 1 := by
  have hbase : 0 ≤ 1 - f.decayRate := by linarith [h.decayRate_lt_one]
  have hsteps : ∀ steps : ℝ, 0 ≤ if steps < 0 then 0 else steps := by
    intro steps
    split
    · exact le_rfl
    · exact not_lt.mp ‹_›
  exact ⟨Real.rpow_nonneg hbase _,
    Real.rpow_le_one hbase (by linarith [h.decayRate_nonneg]) (hsteps _)⟩

/-- A deposit script on a hash in range leaves it in range. -/
theorem NodeHash.InRange.depositScript {h : NodeHash ℝ} (hh : h.InRange) {f : RedisField ℝ}
    (hf : f.Valid) (now : ℝ) {t : Trace ℝ} (hl : 0 ≤ t.latencySec) (ha : 0 ≤ t.activeLoad) :
    (Redis.depositScript (f.scriptArgs now t) h).InRange := by
  obtain ⟨h₀, h₁⟩ := hf.lazyFactor_mem now h
  rw [NodeHash.inRange_iff, f.row_depositScript]
  exact ((NodeHash.inRange_iff.mp hh).scale f.decay h₀ h₁).deposit hf.scale_nonneg hl ha

theorem Request.InRange.serve {r : Request ℝ} (hr : r.InRange) {s : Store ℝ} (hs : s.InRange) :
    (r.serve s).1.InRange ∧ (r.serve s).2.InRange := by
  cases r with
  | hset mappings => exact ⟨hs.hsetAll hr, trivial⟩
  | scriptLoad => exact ⟨hs, trivial⟩
  | hgetall nodeIds =>
    refine ⟨hs, fun h hh => ?_⟩
    obtain ⟨n, -, rfl⟩ := List.mem_map.mp hh
    exact hs.hgetall _
  | evalsha nodeId args =>
    obtain ⟨f, hf, now, t, hl, ha, rfl⟩ := hr
    exact ⟨hs.update _ ((hs.hgetall _).depositScript hf now hl ha), trivial⟩
  | delete nodeId => exact ⟨hs.delete _, trivial⟩

/-! ## The calls -/

namespace RedisField

omit [Field K] [LinearOrder K] in
theorem convertTraces_ok (t : Traces K) : convertTraces Except.ok t = .ok t := by
  have hok : ∀ o : Option K, convertTrace Except.ok o = .ok o := by
    intro o
    cases o <;> rfl
  simp [convertTraces, hok, bind, Except.bind, pure, Except.pure]

omit [Field K] [LinearOrder K] in
/-- The mappings queued are entries of the snapshot. -/
theorem mem_of_hydrateMappings (f : RedisField K) {entries : List (String × Traces K)}
    {mappings : List (String × Traces K)}
    (h : hydrateMappings Except.ok f entries = .ok mappings) : ∀ m ∈ mappings, m ∈ entries := by
  induction entries generalizing mappings with
  | nil =>
    obtain rfl := Except.ok.inj h
    simp
  | cons e entries ih =>
    obtain ⟨nid, traces⟩ := e
    simp only [hydrateMappings, convertTraces_ok] at h
    split at h
    · exact fun m hm => List.mem_cons_of_mem _ (ih h m hm)
    · cases hrest : hydrateMappings Except.ok f entries with
      | error e => simp [hrest, bind, Except.bind] at h
      | ok rest =>
        simp only [hrest, bind, Except.bind, pure, Except.pure, Except.ok.injEq] at h
        subst h
        intro m hm
        split at hm
        · rcases List.mem_cons.mp hm with rfl | hm
          · exact List.mem_cons_self
          · exact List.mem_cons_of_mem _ (ih hrest m hm)
        · exact List.mem_cons_of_mem _ (ih hrest m hm)

variable [IsStrictOrderedRing K]

theorem Valid.body {f : RedisField K} (hf : f.Valid) (now : K) {c : Call K} (hc : c.Checked) :
    (f.body now c).1.Valid ∧ (f.body now c).2.InRange := by
  cases c with
  | getStateVector => exact ⟨hf, trivial, trivial⟩
  | exportStateDict => exact ⟨hf, trivial, trivial⟩
  | depositTrace n t =>
    simp only [RedisField.body]
    split
    · exact ⟨hf, trivial⟩
    · exact ⟨hf, ⟨f, hf, now, t, hc.1.1, hc.1.2, rfl⟩, trivial⟩
  | applyEvaporation rate =>
    obtain ⟨h₀, h₁⟩ := hc.2 rate rfl
    exact ⟨hf, trivial, by linarith, by linarith⟩
  | addNode n tags =>
    simp only [RedisField.body]
    split
    · exact ⟨hf, trivial⟩
    · refine ⟨⟨hf.1, hf.2, hf.3, hf.4⟩, fun m hm => ?_, trivial⟩
      obtain rfl := List.mem_singleton.mp hm
      exact NodeHash.inRange_ofRow Row.defaultState_inRange now
  | removeNode n => exact ⟨hf, trivial, trivial⟩
  | hydrateFromSnapshot snapshot =>
    have hentries : ∀ m, snapshot.nodeMetrics = .ok m →
        ∀ e ∈ m.entries, (mappingOf e.2 0).InRange := hc.1
    simp only [RedisField.body]
    cases hm : snapshot.nodeMetrics with
    | error e => exact ⟨hf, trivial⟩
    | ok metrics =>
      simp only
      cases hq : hydrateMappings Except.ok f metrics.entries with
      | error e => exact ⟨hf, trivial⟩
      | ok mappings =>
        cases mappings with
        | nil => exact ⟨hf, trivial⟩
        | cons m mappings =>
          refine ⟨hf, fun x hx => ?_, trivial⟩
          obtain ⟨y, hy, rfl⟩ := List.mem_map.mp hx
          obtain ⟨V, L, S, C⟩ := hentries metrics hm y (f.mem_of_hydrateMappings hq y hy)
          exact ⟨V, L, S, C⟩

theorem baselines_inRange (f : RedisField K) (ts : String → K) :
    ∀ m ∈ f.baselines ts, m.2.InRange := by
  intro m hm
  obtain ⟨n, -, rfl⟩ := List.mem_map.mp hm
  exact NodeHash.inRange_ofRow Row.defaultState_inRange _

theorem Valid.acquire {f : RedisField K} (hf : f.Valid) (clock : Clock K) {c : Call K}
    (hc : c.Checked) : (f.acquire clock c).InRange := by
  simp only [RedisField.acquire]
  split
  · exact hf.body clock.now hc
  · exact ⟨hf, f.baselines_inRange clock.initTs, hc⟩

theorem Valid.enter {f : RedisField K} (hf : f.Valid) (clock : Clock K) (locked : Bool)
    {c : Call K} (hc : c.Checked) : (f.enter clock locked c).InRange := by
  simp only [RedisField.enter]
  split
  · exact hf.body clock.now hc
  · split
    · exact ⟨hf, hc⟩
    · exact hf.acquire clock hc

theorem Valid.begin {f : RedisField K} (hf : f.Valid) (clock : Clock K) (locked : Bool)
    {c : Call K} (hc : c.Nonneg) : (f.begin clock locked c).InRange := by
  have hother : (∀ rate, c ≠ .applyEvaporation rate) → c.Checked := fun h =>
    ⟨hc, fun rate he => absurd he (h rate)⟩
  cases c with
  | applyEvaporation rate =>
    simp only [RedisField.begin]
    split
    · refine hf.enter clock locked ⟨hc, fun r hr => ?_⟩
      cases hr
      assumption
    · exact ⟨hf, trivial⟩
  | removeNode n =>
    simp only [RedisField.begin]
    split
    · exact ⟨hf, trivial⟩
    · exact hf.enter clock locked (hother (by simp))
  | _ => exact hf.enter clock locked (hother (by simp))

theorem Valid.onReply {f : RedisField K} (hf : f.Valid) {clock : Clock K} {locked : Bool}
    {a : Reply K} (ha : a.InRange) {w : Wait K} (hw : w.InRange) {t : Turn K}
    (ht : f.onReply clock locked a w = some t) : t.InRange := by
  cases a with
  | done =>
    cases w with
    | baselines c =>
      cases ht
      exact ⟨hf, trivial, hw⟩
    | script c =>
      cases ht
      have hf' : { f with initialized := true }.Valid := ⟨hf.1, hf.2, hf.3, hf.4⟩
      exact hf'.body clock.now hw
    | removed n =>
      simp only [RedisField.onReply] at ht
      split at ht <;> cases ht
      · exact ⟨hf, trivial⟩
      · exact ⟨⟨hf.1, hf.2, hf.3, hf.4⟩, trivial⟩
    | deposited | evaporated factor now | added | hydrated count =>
      cases ht
      exact ⟨hf, trivial⟩
    | stateVector | stateDict | evaporation factor now => cases ht
  | hashes raws =>
    cases w with
    | stateVector | stateDict =>
      cases ht
      exact ⟨hf, trivial⟩
    | evaporation factor now =>
      cases ht
      refine ⟨hf, fun m hm => ?_, trivial⟩
      obtain ⟨p, hp, rfl⟩ := List.mem_map.mp hm
      exact (ha _ (List.of_mem_zip hp).2).evaporationUpdates _ hw.1 hw.2 _
    | _ => cases ht

end RedisField

/-! ## Every run -/

theorem Mesh.InRange.put {x : Mesh K} (h : x.InRange) (i : Nat) {t : Turn K}
    (ht : t.field.Valid) : (x.put i t).InRange := by
  refine ⟨h.1, fun j f locked hj => ?_⟩
  by_cases hij : j = i
  · subst hij
    obtain ⟨rfl, rfl⟩ : t.field = f ∧ t.locked = locked := by simpa [Mesh.put] using hj
    exact ht
  · exact h.2 j f locked (by simpa [Mesh.put, hij] using hj)

theorem Mesh.InRange.resume {x y : Mesh ℝ} (h : x.InRange) {clock : Clock ℝ}
    {c d : Coroutine ℝ} (hc : c.point.InRange) (hstep : Mesh.resume clock x c = some (y, d)) :
    y.InRange ∧ d.point.InRange := by
  obtain ⟨i, point⟩ := c
  obtain ⟨f, locked, hi, hpoint⟩ := Mesh.step_of_resume hstep
  have hf : f.Valid := h.2 i f locked hi
  generalize d.point = q at hpoint ⊢
  cases hpoint with
  | start =>
    have ht := hf.begin clock locked hc
    exact ⟨h.put i ht.1, ht.2⟩
  | lock hfree =>
    have ht := hf.acquire clock hc
    exact ⟨h.put i ht.1, ht.2⟩
  | serve =>
    have hserved := hc.1.serve h.1
    exact ⟨⟨hserved.1, h.2⟩, hserved.2, hc.2⟩
  | deliver ht =>
    have ht := hf.onReply hc.1 hc.2 ht
    exact ⟨h.put i ht.1, ht.2⟩

theorem Mesh.InRange.construct {x y : Mesh K} (h : x.InRange) {c : Construct K}
    (hc : MeshEvent.Valid (.external c)) (hstep : Mesh.construct c x = some y) : y.InRange := by
  simp only [Mesh.construct] at hstep
  split at hstep <;> cases hstep
  refine ⟨h.1, fun j f locked hj => ?_⟩
  by_cases hij : j = c.client
  · subst hij
    obtain ⟨rfl, rfl⟩ : RedisField.new c.nodeIds c.saturationScale c.decay c.decayRate
        c.decayIntervalSec = f ∧ false = locked := by simpa using hj
    exact hc
  · exact h.2 j f locked (by simpa [hij] using hj)

/-- The store in range, and every call carrying only values in range. -/
theorem rangeOutline {x₀ : Mesh ℝ} (h₀ : x₀.InRange) :
    Mesh.program.Outline (τ := Nat) x₀ (fun _ e => MeshEvent.Valid e) (fun _ x => x.InRange)
      (fun _ _ _ c => c.point.InRange) where
  start := h₀
  spawn := fun _ _ _ _ _ hann he => ⟨hann.1, he⟩
  resume := fun _ _ tid _ p _ _ _ hann _ hp hx => hann.1.resume (hann.2 tid p hp) hx
  external := fun _ _ _ _ _ hann he hx => hann.1.construct he hx
  stable := fun _ _ _ _ _ _ _ _ _ _ _ _ hp => hp

/-- In every run over a store in range, whatever clients start and whatever their clocks show, the
stored traces stay in range. -/
theorem stored_inRange (s₀ : Store ℝ) (hs₀ : s₀.InRange) (es : List (MeshEvent ℝ))
    (hes : ∀ e ∈ es, e.Valid) (s : MeshState ℝ)
    (hrun : Run.execAll Mesh.program.step (.start ⟨s₀, fun _ => none⟩) es = some s) :
    s.shared.store.InRange := by
  have h₀ : Mesh.InRange ⟨s₀, fun _ => none⟩ := ⟨hs₀, fun _ _ _ h => by cases h⟩
  refine ((rangeOutline h₀).run Mesh.program hrun ?_).1.1
  rintro pre e post u rfl -
  exact hes e (by simp)

/-- A client with the default settings over one node starts with a deposit, and another client's
`add_node` of the node comes in between its reading of the clock and the script. -/
noncomputable def resetRun : List (MeshEvent ℝ) :=
  let clock : Clock ℝ := ⟨fun _ => 100.0, 101.0⟩
  [.external ⟨0, ["a"], 0.1, ⟨true, true⟩, 0.05, 0.5⟩,
    .external ⟨1, [], 0.1, ⟨true, true⟩, 0.05, 0.5⟩,
    .spawn 0 (0, .depositTrace "a" ⟨2.0, 5, false, 4, 1⟩), .spawn 1 (1, .addNode "a" [])] ++
  List.replicate 5 (.resume 0 clock) ++ List.replicate 6 (.resume 1 ⟨fun _ => 90.0, 90.0⟩) ++
  [.resume 0 clock]

theorem stored_inRange_resetRun :
    ∃ s, Run.execAll Mesh.program.step (.start ⟨fun _ => none, fun _ => none⟩) resetRun = some s ∧
      s.shared.store.InRange := by
  refine ⟨_, rfl, stored_inRange (fun _ => none) (fun _ _ h => by cases h) resetRun ?_ _ rfl⟩
  intro e he
  have hnew : ∀ ids, (RedisField.new ids 0.1 ⟨true, true⟩ (0.05 : ℝ) 0.5).Valid := by
    intro ids
    constructor <;> norm_num [RedisField.new]
  simp only [resetRun, List.cons_append, List.nil_append, List.mem_cons, List.mem_append,
    List.mem_replicate, List.not_mem_nil, or_false] at he
  rcases he with rfl | rfl | rfl | rfl | (⟨-, rfl⟩ | ⟨-, rfl⟩) | rfl
  · exact hnew _
  · exact hnew _
  · exact ⟨by norm_num, by norm_num⟩
  all_goals trivial

end StigmergicMesh.Redis
