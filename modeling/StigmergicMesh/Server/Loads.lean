import StigmergicMesh.Field.Forgetting
import StigmergicMesh.Server.Availability
import StigmergicMesh.Server.Counters

/-!
# Loads and saturation

The load of a node is the number of requests that are with it. What a request deposits of it counts
the others only: a node that never has two requests at once never looks saturated, however many it
has served, and in general its saturation trace stays below the scaled number of the others.
-/

namespace StigmergicMesh.Server

open WorkerNode Tasks

variable {K : Type*}

/-! ## Requests at a node -/

/-- The request waits for its worker. -/
def Point.Awaits : Point K → Prop
  | .executing _ _ => True
  | .streaming _ _ _ => True
  | _ => False

/-- The request waits for its consumer. -/
def Point.Sends : Point K → Prop
  | .sending _ _ _ _ => True
  | _ => False

/-- The request has left its stream behind, without a word to its worker. -/
def Point.LeavesBehind : Point K → Prop
  | .served _ _ (.broken _) => True
  | .served _ _ (.disconnected _) => True
  | _ => False

/-- The call of a request at a node is not over. -/
def Mesh.At (m : Mesh K) (n : String) (tid : Nat) : Prop :=
  ∃ stage, (m.calls n).task tid = some stage ∧ ∀ exit, stage ≠ .ended exit

/-- The request is with the node: it waits for it or for its consumer, or it has left its stream
behind and the call is not over. -/
def Mesh.With (m : Mesh K) (n : String) (tid : Nat) : Prop :=
  ∃ p worker, m.ingress.task tid = some p ∧ p.worker? = some worker ∧ worker.nodeId = n ∧
    (p.Awaits ∨ p.Sends ∨ p.LeavesBehind ∧ m.At n tid)

/-- The load of a node is the number of the calls in flight, which belong to the requests that are
with it; and a request that waits for the node has a call there that can go on. -/
structure Mesh.LoadExact (m : Mesh K) (n : String) : Prop where
  load : ∃ T : Finset Nat, (∀ tid, tid ∈ T ↔ (m.calls n).InFlight tid) ∧
    (m.calls n).shared.count = T.card
  requests : ∀ tid, (m.calls n).InFlight tid → m.With n tid
  waits : ∀ tid p worker, m.ingress.task tid = some p → p.worker? = some worker →
    worker.nodeId = n → p.Awaits → ∃ stage, (m.calls n).task tid = some stage ∧
      (Counted.resume .next (m.calls n).shared stage).isSome

section Runs

variable [Field K] [LinearOrder K] {mesh : MeshConfig K}

theorem MeshConfig.Coherent.loadExact {m : Mesh K} (h : mesh.Coherent m) (n : String) :
    m.LoadExact n := by
  obtain ⟨T, hT⟩ := h.tally n
  refine ⟨⟨T, hT.mem, hT.count⟩, ?_, ?_⟩
  · rintro tid ⟨stage, hstage, hflight⟩
    have hagree := h.requests tid
    obtain ⟨worker, hworker, rfl⟩ :
        ∃ worker ∈ (m.ingress.task tid).bind Point.worker?, worker.nodeId = n := by
      by_contra hnone
      push Not at hnone
      cases (hagree.elsewhere n hnone).symm.trans hstage
    obtain ⟨p, hp, hworker⟩ := Option.bind_eq_some_iff.mp hworker
    obtain ⟨stage', hstage', hsuits⟩ := hagree.called p hp worker hworker
    obtain rfl : stage = stage' := Option.some.inj (hstage.symm.trans hstage')
    have hopen : ∀ exit, stage ≠ .ended exit := by
      rintro exit rfl
      cases hflight
    refine ⟨p, worker, hp, hworker, rfl, ?_⟩
    cases p with
    | received | resolving | limiting | admitted | refused | unserved => cases hworker
    | executing | streaming => exact Or.inl trivial
    | sending => exact Or.inr (Or.inl trivial)
    | executed =>
      obtain ⟨exit, hended⟩ := hsuits
      exact (hopen exit hended).elim
    | served a w answer =>
      cases answer with
      | broken | disconnected => exact Or.inr (Or.inr ⟨trivial, stage, hstage, hopen⟩)
      | json | depositRaised | usageRaised | aborted | streamed | cancelled =>
        obtain ⟨exit, hended⟩ := hsuits
        exact (hopen exit hended).elim
  · rintro tid p worker hp hworker rfl hawaits
    obtain ⟨stage, hstage, hsuits⟩ := (h.requests tid).called p hp worker hworker
    refine ⟨stage, hstage, ?_⟩
    cases p with
    | executing | streaming => exact Untold.resume hsuits _
    | received | resolving | limiting | admitted | sending | executed | refused | unserved |
        served => exact hawaits.elim

/-- In every run of a mesh, whatever requests and calls interleave, the load of every node counts
each call in flight once, all of requests that are with the node. So it is zero when none is; and no
request waits for a call that cannot go on. -/
theorem load_of_run [IsStrictOrderedRing K] [Transcendental K] (mesh : MeshConfig K)
    (hsound : mesh.Sound) (x : Shared K) (es : List (MeshEvent K)) (m : Mesh K)
    (hrun : Run.execAll mesh.step (.start x) es = some m) (htimely : ∀ e ∈ es, e.Timely)
    (n : String) :
    m.LoadExact n ∧ ((∀ tid, ¬m.With n tid) → (m.calls n).shared.count = 0) := by
  have hload := (coherent_run hsound hrun htimely).loadExact n
  refine ⟨hload, fun hidle => ?_⟩
  obtain ⟨T, hT, hcount⟩ := hload.load
  have hempty : T = ∅ := Finset.eq_empty_of_forall_notMem fun tid htid =>
    hidle tid (hload.requests tid ((hT tid).mp htid))
  rw [hcount, hempty]
  rfl

end Runs

/-! ## Saturation -/

section Saturation

variable [Field K] [LinearOrder K] [IsStrictOrderedRing K]

/-- The saturation trace of a node is at most the scaled `k`. -/
def Within (f : InMemoryField K) (n : String) (k : Int) : Prop :=
  ∀ r, f.rowOf n = some r → 0 ≤ r.S ∧ r.S ≤ k * f.saturationScale

/-- A deposit or a tick, with a load between zero and `k` if it is on the node. -/
def Light (n : String) (k : Int) : InMemoryField.Op K → Prop
  | .depositTrace m t => m = n → 0 ≤ t.activeLoad ∧ t.activeLoad ≤ k
  | .applyEvaporation _ => True
  | _ => False

omit [Field K] [LinearOrder K] [IsStrictOrderedRing K] in
theorem Light.routine {n : String} {k : Int} {op : InMemoryField.Op K} (h : Light n k op) :
    op.Routine := by
  cases op with
  | depositTrace | applyEvaporation => trivial
  | addNode | removeNode | hydrateFromSnapshot => exact h.elim

theorem Light.within {f : InMemoryField K} (hf : f.Indexed) (hscale : 0 ≤ f.saturationScale)
    {n : String} {k : Int} {op : InMemoryField.Op K} (hop : Light n k op) (h : Within f n k) :
    Within (f.exec op).2 n k := by
  intro r hr
  rw [(InMemoryField.exec_settings f op).1]
  rw [hf.rowOf_exec hop.routine] at hr
  cases op with
  | addNode | removeNode | hydrateFromSnapshot => exact hop.elim
  | depositTrace m t =>
    simp only [InMemoryField.Op.effect, InMemoryField.Op.onRow] at hr
    split_ifs at hr with hn
    · obtain ⟨r₀, -, rfl⟩ := Option.map_eq_some_iff.mp hr
      obtain ⟨hnonneg, hle⟩ := hop hn.symm
      have hnonneg : (0 : K) ≤ t.activeLoad := by exact_mod_cast hnonneg
      have hle : (t.activeLoad : K) ≤ k := by exact_mod_cast hle
      exact ⟨mul_nonneg hnonneg hscale, mul_le_mul_of_nonneg_right hle hscale⟩
    · exact h r hr
  | applyEvaporation rate =>
    simp only [InMemoryField.Op.effect, InMemoryField.Op.onRow] at hr
    split_ifs at hr with hrate
    · obtain ⟨r₀, hr₀, rfl⟩ := Option.map_eq_some_iff.mp hr
      obtain ⟨hnonneg, hle⟩ := h r₀ hr₀
      obtain ⟨hrate₀, hrate₁⟩ := hrate
      exact ⟨mul_nonneg hnonneg (by linarith),
        (mul_le_of_le_one_right hnonneg (by linarith)).trans hle⟩
    · exact h r hr

/-- Light calls keep the trace within its bound. -/
theorem within_run {f : InMemoryField K} (hf : f.Indexed) (hscale : 0 ≤ f.saturationScale)
    {n : String} {k : Int} {ops : List (InMemoryField.Op K)} (hops : ∀ op ∈ ops, Light n k op)
    (h : Within f n k) : (f.run ops).Indexed ∧ Within (f.run ops) n k := by
  induction ops using List.reverseRecOn with
  | nil => exact ⟨hf, h⟩
  | append_singleton ops op ih =>
    obtain ⟨hindexed, hwithin⟩ := ih fun o ho => hops o (List.mem_append_left _ ho)
    have hop := hops op (List.mem_append_right _ (List.mem_singleton.mpr rfl))
    rw [InMemoryField.run_snoc]
    refine ⟨hindexed.exec op, hop.within hindexed ?_ hwithin⟩
    rwa [(InMemoryField.run_settings f ops).1]

variable [Transcendental K]

/-- A step in which what is learned of a node says a load between zero and `k`. -/
def Loaded (n : String) (k : Int) (s : IngressState K) (e : IngressEvent K) : Prop :=
  (∀ r ∈ returned? e, r.2.nodeId = n → 0 ≤ r.2.activeLoad ∧ r.2.activeLoad ≤ k) ∧
    ∀ tid c created worker, e = .resume tid (.chunk c created) →
      (s.task tid).bind Point.worker? = some worker → worker.nodeId = n →
        0 ≤ c.activeLoad.getD 0 ∧ c.activeLoad.getD 0 ≤ k

/-- What a request can deposit next on the node says a load between zero and `k`. -/
def Point.Loaded (platform : Platform K) (n : String) (k : Int) (p : Point K) : Prop :=
  ∀ d, p.Observes platform d → d.1 = n → 0 ≤ d.2.activeLoad ∧ d.2.activeLoad ≤ k

variable {platform : Platform K} {config : Config K}

omit [IsStrictOrderedRing K] in
theorem loaded_resume {n : String} {k : Int} (hk : 0 ≤ k) {s : IngressState K} {tid : Nat}
    {i : Input K} (hloaded : Loaded n k s (.resume tid i)) {p : Point K}
    (hp : s.task tid = some p) {next : Shared K × Point K}
    (h : resume platform config i s.shared p = some next) : next.2.Loaded platform n k := by
  cases step_of_resume h with
  | @execute a worker ended =>
    rintro d rfl hn
    cases ended with
    | returned result text => exact hloaded.1 (tid, result) rfl hn
    | raised => exact ⟨le_rfl, hk⟩
  | @chunk a worker p c created =>
    rintro d ⟨success, rfl⟩ hn
    exact hloaded.2 tid c created worker rfl (by simp [hp, Point.worker?]) hn
  | ask | unauthorized | notReady | noClient | call | unlimited | evaluate | allow | deny |
      limiterRaised | unserved | stream | dispatch | depositRaised | answer | usageRaised | next |
      broken | close | finish | abort | cancel => exact fun d hd => hd.elim

/-- The saturation trace of a node over which no load above `k` is learned. -/
theorem within_of_run {n : String} {k : Int} (hk : 0 ≤ k) {x : Shared K}
    (hf : x.field.Indexed) (hscale : 0 ≤ x.field.saturationScale) (hx : Within x.field n k)
    {es : List (IngressEvent K)} {s : IngressState K}
    (hrun : Run.execAll (ingress platform config).step (.start x) es = some s)
    (hloaded : Run.EachStep (ingress platform config).step (Loaded n k) (.start x) es) :
    s.shared.field.Indexed ∧ s.shared.field.saturationScale = x.field.saturationScale ∧
      Within s.shared.field n k := by
  have run : ∀ (f : InMemoryField K) (ops : List (InMemoryField.Op K)),
      (f.Indexed ∧ f.saturationScale = x.field.saturationScale ∧ Within f n k) →
      (∀ op ∈ ops, Light n k op) →
      (f.run ops).Indexed ∧ (f.run ops).saturationScale = x.field.saturationScale ∧
        Within (f.run ops) n k := by
    rintro f ops ⟨hf, hsame, hwithin⟩ hops
    obtain ⟨hindexed, hwithin⟩ := within_run hf (hsame ▸ hscale) hops hwithin
    exact ⟨hindexed, (InMemoryField.run_settings f ops).1.trans hsame, hwithin⟩
  have houtline : (ingress platform config).Outline (τ := Nat) x (Loaded n k)
      (fun _ y => y.field.Indexed ∧ y.field.saturationScale = x.field.saturationScale ∧
        Within y.field n k)
      (fun _ _ _ p => p.Loaded platform n k) :=
    { start := ⟨hf, rfl, hx⟩
      spawn := fun es s tid r _ hann _ => ⟨hann.1, fun d hd => hd.elim⟩
      resume := fun es s tid i p y q _ hann hG hp hx => by
        obtain ⟨ds, -, hfield, hobserved⟩ := resume_deposits hx
        refine ⟨?_, loaded_resume hk hG hp hx⟩
        have hfield : y.field = s.shared.field.run (ds.map depositOp) := hfield
        rw [hfield]
        refine run _ _ hann.1 fun op hop => ?_
        obtain ⟨d, hd, rfl⟩ := List.mem_map.mp hop
        exact hann.2 tid p hp d (hobserved d hd)
      external := fun es s rate y _ hann _ hy => by
        obtain rfl := Option.some.inj hy
        exact run _ [.applyEvaporation rate] hann.1 fun op hop => by
          obtain rfl := List.mem_singleton.mp hop
          trivial
      stable := fun _ _ _ _ _ _ _ _ _ _ _ _ h => h }
  exact (houtline.run _ hrun hloaded).1

/-- There are at most `k + 1` requests at a node. -/
def Mesh.Uncrowded (m : Mesh K) (n : String) (k : Nat) : Prop :=
  ∀ T : Finset Nat, (∀ tid ∈ T, m.At n tid) → T.card ≤ k + 1

omit [Field K] [LinearOrder K] [IsStrictOrderedRing K] [Transcendental K] in
/-- The others beside one of the requests. -/
theorem Mesh.Uncrowded.card_le {m : Mesh K} {n : String} {k : Nat} (h : m.Uncrowded n k)
    {tid : Nat} {stage : CallStage K} (hstage : (m.calls n).task tid = some stage)
    (hopen : ∀ exit, stage ≠ .ended exit) {others : Finset Nat}
    (hothers : ∀ tid', tid' ∈ others ↔ tid' ≠ tid ∧ (m.calls n).InFlight tid') :
    others.card ≤ k := by
  have hnotin : tid ∉ others := fun hmem => ((hothers tid).mp hmem).1 rfl
  have hcard := h (insert tid others) fun tid' hmem => by
    rcases Finset.mem_insert.mp hmem with rfl | hmem
    · exact ⟨stage, hstage, hopen⟩
    · obtain ⟨-, stage', hstage', hflight⟩ := (hothers tid').mp hmem
      refine ⟨stage', hstage', ?_⟩
      rintro exit rfl
      cases hflight
  rw [Finset.card_insert_of_notMem hnotin] at hcard
  omega

omit [IsStrictOrderedRing K] [Transcendental K] in
/-- What is learned with truth of a node that has at most `k` other calls. -/
theorem Input.Truthful.loaded {s : IngressState K} {tid : Nat} {i : Input K}
    {worker : Worker} (hworker : (s.task tid).bind Point.worker? = some worker) {others k : Nat}
    (h : i.Truthful worker others) {n : String} (hbound : worker.nodeId = n → others ≤ k) :
    Loaded n k s (.resume tid i) := by
  have hcount : worker.nodeId = n → (0 : Int) ≤ others ∧ (others : Int) ≤ k := by
    intro hn
    have := hbound hn
    omega
  constructor
  · rintro ⟨tid', result⟩ hr hn
    cases i with
    | execute ended =>
      cases ended with
      | raised => cases hr
      | returned result' text =>
        obtain ⟨rfl, rfl⟩ := Prod.mk.inj (Option.some.inj hr)
        obtain ⟨hid, -, hload⟩ := h
        rw [hload]
        exact hcount (hid.symm.trans hn)
    | _ => cases hr
  · rintro tid' c created worker' he hworker' hn
    cases he
    obtain rfl := Option.some.inj (hworker.symm.trans hworker')
    rw [h.2]
    exact hcount hn

/-- Of a node that is not crowded no load above `k` is learned. -/
theorem loaded_run {mesh : MeshConfig K} (hsound : mesh.Sound) {x : Shared K}
    {es : List (MeshEvent K)} {m : Mesh K}
    (hrun : Run.execAll mesh.step (.start x) es = some m) (htimely : ∀ e ∈ es, e.Timely)
    {n : String} {k : Nat}
    (hcrowd : Run.EachStep mesh.step (fun m _ => m.Uncrowded n k) (.start x) es) :
    Run.EachStep mesh.ingress.step (Loaded n k) (.start x)
      (mesh.ingressProjection.trace (.start x) es) := by
  have hcoherent : Run.EachStep mesh.step (fun m _ => mesh.Coherent m ∧ m.Uncrowded n k)
      (.start x) es := fun pre e post m hes hm =>
    ⟨coherent_run hsound hm fun e' he' => htimely e' (by simp [hes, he']),
      hcrowd pre e post m hes hm⟩
  refine mesh.ingressProjection.eachStep_trace ?_ hrun hcoherent
  intro m e m' e' hG hstep hlabel
  cases hunaided : Unaided e' with
  | true =>
    obtain ⟨-, hreturned, -⟩ := nothing_of_unaided hunaided
    refine ⟨by simp [hreturned], ?_⟩
    rintro tid c created worker rfl
    cases hunaided
  | false =>
    cases e' with
    | spawn | external => cases hunaided
    | resume tid i =>
      obtain ⟨draw, c, rfl, rfl⟩ | ⟨-, worker, hworker, ⟨stage, hstage, hopen⟩, others, hothers,
          htruthful⟩ := hG.1.truthful_of_served hsound hstep hlabel hunaided
      · exact ⟨by rintro _ ⟨⟩, by rintro _ _ _ _ ⟨⟩⟩
      · refine htruthful.loaded hworker ?_
        rintro rfl
        exact hG.2.card_le hstage hopen hothers

omit [LinearOrder K] [IsStrictOrderedRing K] [Transcendental K] in
/-- A server starts up with baseline rows. -/
theorem defaultState_of_lifespan {lower : String → String} {settings : Settings K}
    {around : Surroundings} {config : Config K} {x : Shared K}
    (h : lifespan lower settings around = .ok (config, x)) {n : String} {r : Row K}
    (hr : x.field.rowOf n = some r) : r = Row.defaultState := by
  simp only [lifespan] at h
  split at h
  · cases h
  · split at h
    · cases h
    · rename_i field hfield
      obtain ⟨rfl, rfl⟩ := Prod.mk.inj (Except.ok.inj h)
      obtain ⟨hnew, -⟩ := InMemoryField.eq_of_new hfield
      obtain ⟨i, -, hi⟩ := Option.bind_eq_some_iff.mp hr
      have hi : field.state[i]? = some r := hi
      rw [hnew] at hi
      exact List.eq_of_mem_replicate (List.mem_of_getElem? hi)

/-- In every run of a launched mesh: if there are never more than `k + 1` requests at a node at
once, its saturation trace is at most `k` times the scale. So a node that never has two requests at
once does not look saturated at all. -/
theorem saturation_of_launch (platform : Platform K) (texts : Texts) (settings : Settings K)
    (hsettings : settings.Sound) (specs : List (NodeSpec K)) (hspecs : ∀ spec ∈ specs, spec.Sound)
    (around : Surroundings) (mesh : MeshConfig K) (x : Shared K)
    (hlaunch : launch platform texts settings specs around = .ok (mesh, x))
    (es : List (MeshEvent K)) (m : Mesh K)
    (hrun : Run.execAll mesh.step (.start x) es = some m) (htimely : ∀ e ∈ es, e.Timely)
    (n : String) (k : Nat)
    (hcrowd : Run.EachStep mesh.step (fun m _ => m.Uncrowded n k) (.start x) es) (r : Row K)
    (hr : m.ingress.shared.field.exportStateDict.get? n = some r) :
    0 ≤ r.S ∧ r.S ≤ k * x.field.saturationScale := by
  obtain ⟨hlifespan, -⟩ := of_launch hlaunch
  have hsettings : Settings.Sound { settings with
      workers := specs.map NodeSpec.toWorkerSpec } :=
    ⟨hsettings.weights, hsettings.temperature, hsettings.saturationScale⟩
  obtain ⟨-, hscale, -⟩ := sound_of_lifespan hsettings hlifespan
  have hk : (0 : Int) ≤ (k : Int) := Int.natCast_nonneg k
  have hstart : Within x.field n k := by
    intro r hr
    obtain rfl := defaultState_of_lifespan hlifespan hr
    have hk : (0 : K) ≤ (k : Int) := by exact_mod_cast hk
    exact ⟨le_rfl, mul_nonneg hk hscale⟩
  have hf := (started_of_lifespan hlifespan).consistent.indexed
  obtain ⟨hindexed, hsame, hwithin⟩ := within_of_run hk hf hscale hstart
    (mesh.ingressProjection.execAll_trace hrun)
    (loaded_run (sound_of_launch hspecs hlaunch) hrun htimely hcrowd)
  have hwithin := hwithin r ((hindexed.get?_exportStateDict n).symm.trans hr)
  rw [hsame] at hwithin
  exact_mod_cast hwithin

end Saturation

/-! ## A node with one request -/

section Sample

attribute [local instance] unitExp

theorem sound_sampleMesh : sampleMesh.Sound := sound_of_launch sound_sampleSpecs launch_sample

/-- There is one request. -/
theorem absent_of_sampleMeshRun {pre post : List (MeshEvent ℚ)} (hes : sampleMeshRun = pre ++ post)
    {m : Mesh ℚ} (hm : Run.execAll sampleMesh.step (.start sampleShared) pre = some m) {tid : Nat}
    (hne : tid ≠ 0) : m.ingress.task tid = none ∧ m.callsOf tid = fun _ => none := by
  have hfirst : ∀ e ∈ sampleMeshRun, ∀ tid ∈ e.tid?, tid = 0 := by decide
  exact absent_of_run hm fun e he htid => hne (hfirst e (by simp [hes, he]) tid htid)

/-- A request that was counted is with no node. -/
theorem gone_of_completed {nodeId status : String} {p : Point ℚ} {left : Prop}
    (h : p.completed nodeId status = true) : ¬(p.Awaits ∨ p.Sends ∨ p.LeavesBehind ∧ left) := by
  cases p with
  | served a worker answer =>
    cases answer with
    | json | usageRaised => simp [Point.Awaits, Point.Sends, Point.LeavesBehind]
    | depositRaised | aborted | streamed | broken | disconnected | cancelled => cases h
  | _ => cases h

/-- The request has its document, so nothing is left at the node. -/
theorem load_of_run_sampleMeshRun :
    ∃ m, Run.execAll sampleMesh.step (.start sampleShared) sampleMeshRun = some m ∧
      m.LoadExact "a" ∧ (m.calls "a").shared.count = 0 := by
  have hdone : (Run.execAll sampleMesh.step (.start sampleShared) sampleMeshRun).any (fun m =>
      (m.ingress.task 0).any (Point.completed "a" "success")) = true := by decide +kernel
  obtain ⟨m, hm, hserved⟩ := (Option.any_eq_true ..).mp hdone
  obtain ⟨hload, hidle⟩ := load_of_run sampleMesh sound_sampleMesh sampleShared sampleMeshRun m hm
    timely_sampleMeshRun "a"
  refine ⟨m, hm, hload, hidle ?_⟩
  rintro tid ⟨p, worker, hp, -, -, hwith⟩
  by_cases hne : tid = 0
  · subst hne
    rw [hp, Option.any_some] at hserved
    exact (gone_of_completed hserved hwith).elim
  · have habsent := absent_of_sampleMeshRun (List.append_nil _).symm hm hne
    cases habsent.1.symm.trans hp

/-- There is never a second request. -/
theorem uncrowded_sampleMeshRun : Run.EachStep sampleMesh.step (fun m _ => m.Uncrowded "a" 0)
    (.start sampleShared) sampleMeshRun := by
  intro pre e post m hes hm T hT
  have honly : T ⊆ {0} := by
    intro tid htid
    by_contra hne
    obtain ⟨stage, hstage, -⟩ := hT tid htid
    have habsent := absent_of_sampleMeshRun hes hm (mt Finset.mem_singleton.mpr hne)
    cases (congrFun habsent.2 "a").symm.trans hstage
  exact (Finset.card_le_card honly).trans (by simp)

/-- The worker has served a request and does not look saturated. -/
theorem saturation_of_launch_sampleMeshRun :
    ∃ m r, Run.execAll sampleMesh.step (.start sampleShared) sampleMeshRun = some m ∧
      m.ingress.shared.field.exportStateDict.get? "a" = some r ∧ r.S = 0 := by
  have hrow : ((Run.execAll sampleMesh.step (.start sampleShared) sampleMeshRun).bind
      (·.ingress.shared.field.exportStateDict.get? "a")).isSome = true := by decide +kernel
  obtain ⟨r, hr⟩ := Option.isSome_iff_exists.mp hrow
  obtain ⟨m, hm, hr⟩ := Option.bind_eq_some_iff.mp hr
  obtain ⟨hnonneg, hle⟩ := saturation_of_launch samplePlatform sampleTexts sampleSettings
    sound_sampleSettings sampleSpecs sound_sampleSpecs sampleSurroundings sampleMesh sampleShared
    launch_sample sampleMeshRun m hm timely_sampleMeshRun "a" 0 uncrowded_sampleMeshRun r hr
  exact ⟨m, r, hm, hr, le_antisymm (by simpa using hle) hnonneg⟩

end Sample

end StigmergicMesh.Server
