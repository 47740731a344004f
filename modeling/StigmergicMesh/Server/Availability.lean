import StigmergicMesh.Server.Assembled

/-!
# The availability of a mesh

A mesh treats its server fairly, and no request of it is stuck: what is next for a request is a step
of the server, the call of the worker that is sampled for it, or a step of this call. So a mesh that
is launched with a sound configuration serves all its requests.
-/

namespace StigmergicMesh.Server

open WorkerNode Tasks

variable {K : Type*}

section Runs

variable [Field K] [LinearOrder K] [IsStrictOrderedRing K] [Transcendental K]
  {mesh : MeshConfig K}

/-! ## Fair runs -/

/-- The random generator draws the index of a node. -/
def ValidSample (m : Mesh K) : MeshEvent K → Prop
  | .sample _ draw _ => draw < m.ingress.shared.field.nodeIds.length
  | _ => True

/-- A step as the server needs it. -/
def Fair (s : IngressState K) (e : IngressEvent K) : Prop :=
  ValidDraw s e ∧ CarriesNodeId s e ∧ Measured e

omit [Field K] [LinearOrder K] [IsStrictOrderedRing K] [Transcendental K] in
theorem nothing_of_unaided {e : IngressEvent K} (h : Unaided e = true) :
    draw? e = none ∧ returned? e = none ∧ learned? e = none := by
  cases e with
  | spawn | external => exact ⟨rfl, rfl, rfl⟩
  | resume tid i =>
    cases i with
    | sample | execute | chunk | finish | abort => cases h
    | begin | hgetall | limiter | answer | next | close => exact ⟨rfl, rfl, rfl⟩

omit [IsStrictOrderedRing K] [Transcendental K] in
theorem fair_of_unaided {s : IngressState K} {e : IngressEvent K} (h : Unaided e = true) :
    Fair s e := by
  obtain ⟨hdraw, hreturned, hlearned⟩ := nothing_of_unaided h
  refine ⟨?_, ?_, ?_, ?_⟩
  · simp [ValidDraw, hdraw]
  · simp [CarriesNodeId, hreturned]
  · simp [hreturned]
  · simp [hlearned]

omit [IsStrictOrderedRing K] [Transcendental K] in
theorem Input.Truthful.fair {s : IngressState K} {tid : Nat} {i : Input K} {worker : Worker}
    (hworker : (s.task tid).bind Point.worker? = some worker) {others : Nat}
    (h : i.Truthful worker others) (hdraw : ∀ draw, i ≠ .sample draw) :
    Fair s (.resume tid i) := by
  have hothers : (0 : Int) ≤ others := Int.natCast_nonneg others
  refine ⟨fun draw hd => ?_, ?_, ?_, ?_⟩
  · cases i with
    | sample draw' => exact (hdraw draw' rfl).elim
    | _ => cases hd
  · rintro ⟨tid', result⟩ hr w hw
    cases i with
    | execute ended =>
      cases ended with
      | returned result' text =>
        obtain ⟨rfl, rfl⟩ := Prod.mk.inj (Option.some.inj hr)
        obtain rfl := Option.some.inj (hworker.symm.trans hw)
        exact h.1
      | raised => cases hr
    | _ => cases hr
  · rintro ⟨tid', result⟩ hr
    cases i with
    | execute ended =>
      cases ended with
      | returned result' text =>
        obtain ⟨rfl, rfl⟩ := Prod.mk.inj (Option.some.inj hr)
        exact ⟨h.2.1, h.2.2 ▸ hothers⟩
      | raised => cases hr
    | _ => cases hr
  · intro c hc
    cases i with
    | chunk c' created =>
      obtain rfl := Option.some.inj hc
      exact ⟨h.1, by simp [h.2]⟩
    | _ => cases hc

/-- In a run of a mesh the server is treated fairly. -/
theorem fair_run (hsound : mesh.Sound) {x : Shared K} {es : List (MeshEvent K)} {m : Mesh K}
    (hrun : Run.execAll mesh.step (.start x) es = some m) (htimely : ∀ e ∈ es, e.Timely)
    (hdraws : Run.EachStep mesh.step ValidSample (.start x) es) :
    Run.EachStep mesh.ingress.step Fair (.start x)
      (mesh.ingressProjection.trace (.start x) es) := by
  have hcoherent : Run.EachStep mesh.step (fun m e => mesh.Coherent m ∧ ValidSample m e)
      (.start x) es := fun pre e post m hes hm =>
    ⟨coherent_run hsound hm fun e' he' => htimely e' (by simp [hes, he']),
      hdraws pre e post m hes hm⟩
  refine mesh.ingressProjection.eachStep_trace ?_ hrun hcoherent
  intro m e m' e' hG hstep hlabel
  cases hunaided : Unaided e' with
  | true => exact fair_of_unaided hunaided
  | false =>
    cases e' with
    | spawn | external => cases hunaided
    | resume tid i =>
      obtain ⟨draw, c, rfl, rfl⟩ | ⟨hdraw, worker, hworker, -, others, -, htruthful⟩ :=
        hG.1.truthful_of_served hsound hstep hlabel hunaided
      · refine ⟨fun draw' hdraw => ?_, by rintro _ ⟨⟩, by rintro _ ⟨⟩, by rintro _ ⟨⟩⟩
        obtain rfl := Option.some.inj hdraw
        exact hG.2
      · exact htruthful.fair hworker hdraw

/-! ## Progress -/

/-- The request has ended, or a step of the mesh is next for it. -/
def MeshConfig.Proceeds (mesh : MeshConfig K) (m : Mesh K) (tid : Nat) (p : Point K) : Prop :=
  p.Final ∨ ∃ e, e.tid? = some tid ∧ ValidSample m e ∧ e.Timely ∧ (mesh.step m e).isSome

omit [IsStrictOrderedRing K] in
theorem MeshConfig.isSome_step {i : IngressState K} {tid : Nat} {p : Point K}
    (hp : i.task tid = some p) {input : Input K}
    (h : (resume mesh.platform mesh.config input i.shared p).isSome) :
    (mesh.ingress.step i (.resume tid input)).isSome := by
  have hresume : (mesh.ingress.resume input i.shared p).isSome := h
  simpa only [Program.step, hp, Option.isSome_map] using hresume

omit [IsStrictOrderedRing K] in
/-- What a request hears is what it waits for. -/
theorem Hears.isSome_resume {created : Int} {p : Point K} {stage : CallStage K} {i : Input K}
    (h : Hears created p stage i) (x : Shared K) :
    (resume mesh.platform mesh.config i x p).isSome := by
  cases h <;> rfl

omit [IsStrictOrderedRing K] in
/-- A request that awaits its worker goes on with the call. -/
theorem MeshConfig.Coherent.proceeds_of_awaiting {m : Mesh K}
    (h : mesh.Coherent m) {tid : Nat} {p : Point K} (hp : m.ingress.task tid = some p)
    {worker : Worker} (hworker : p.worker? = some worker) (hpermits : p.permits .next = true)
    (huntold : ∀ stage, p.Suits stage → Untold stage) : mesh.Proceeds m tid p := by
  obtain ⟨stage, hstage, hsuits⟩ := (h.requests tid).called p hp worker hworker
  have hstage : (m.calls worker.nodeId).task tid = some stage := hstage
  obtain ⟨node, hnode, -⟩ := h.stages _ _ _ hstage
  obtain ⟨⟨x, q⟩, hr⟩ := Option.isSome_iff_exists.mp
    ((huntold stage hsuits).resume (m.calls worker.nodeId).shared)
  have hcalls : (mesh.program node).step (m.calls worker.nodeId) (.resume tid .next) =
      some ((m.calls worker.nodeId).move tid x q) := by
    have hr : (mesh.program node).resume .next (m.calls worker.nodeId).shared stage =
        some (x, q) := hr
    simp only [Program.step, hstage, hr, Option.map_some]
  have hear : (mesh.hear m.ingress tid (hearing 0 p q)).isSome := by
    cases hhearing : hearing 0 p q with
    | none => rfl
    | some input =>
      exact isSome_step hp ((hears_of_hearing hhearing).isSome_resume m.ingress.shared)
  refine Or.inr ⟨.work tid .next 0, rfl, trivial, trivial, ?_⟩
  simp only [MeshConfig.step, hp, hworker, hnode, hpermits, hcalls, Option.bind_some, if_true,
    State.task_move_self, Option.isSome_map]
  exact hear

/-- What a call can find around it: a clock that stands still, draws of zero, and no server. -/
def stillCircumstances : Circumstances K where
  clock _ := 0
  source := 0
  luck := 0
  exchange _ := ⟨.pure () (), .pure () (.error ""), .pure () ()⟩
  upstream _ := ⟨.pure () (), none, .stops (.pure () ()), .pure () ()⟩

/-- The router knows the nodes of the mesh under their ids. -/
def MeshConfig.Routes (mesh : MeshConfig K) : Prop :=
  ∀ router, mesh.config.router = some router →
    ∀ n, (mesh.nodes.get? n).map Node.worker = router.workers.get? n

omit [IsStrictOrderedRing K] in
/-- The worker that is sampled for a request has a node. -/
theorem MeshConfig.Routes.exists_node (hroutes : mesh.Routes)
    (hnamed : ∀ n node, mesh.nodes.get? n = some node → node.nodeId = n) {draw : Nat}
    {x y : Shared K} {a : Admission K} {q : Point K}
    (h : resume mesh.platform mesh.config (.sample draw) x (.admitted a) = some (y, q))
    {job : Job} {worker : Worker} (hsent : q.sent? = some (job, worker)) :
    ∃ node, mesh.nodes.get? worker.nodeId = some node := by
  obtain ⟨router, hrouter, draw', context, weights, hworker⟩ : ∃ router,
      mesh.config.router = some router ∧ ∃ draw context weights,
        router.sampleWorker x.field context weights draw = .ok worker := by
    cases step_of_resume h with
    | unauthorized ha | notReady ha | noClient ha | call ha | unlimited ha => cases ha
    | unserved => cases hsent
    | stream hrouter hworker | dispatch hrouter hworker =>
      obtain ⟨-, rfl⟩ := Prod.mk.inj (Option.some.inj hsent)
      exact ⟨_, hrouter, _, _, _, hworker⟩
  obtain ⟨n, -, hn⟩ := Router.sampleWorker_mem hworker
  obtain ⟨node, hnode, rfl⟩ := Option.map_eq_some_iff.mp ((hroutes router hrouter n).trans hn)
  obtain rfl := hnamed n node hnode
  exact ⟨node, hnode⟩

omit [IsStrictOrderedRing K] in
/-- A request that has been let in goes on with the worker that is sampled for it. -/
theorem MeshConfig.Coherent.proceeds_of_admitted (hroutes : mesh.Routes)
    (hnamed : ∀ n node, mesh.nodes.get? n = some node → node.nodeId = n)
    {m : Mesh K} (h : mesh.Coherent m) {tid : Nat} {a : Admission K}
    (hp : m.ingress.task tid = some (.admitted a)) {draw : Nat}
    (hdraw : draw < m.ingress.shared.field.nodeIds.length)
    (hsome : (resume mesh.platform mesh.config (.sample draw) m.ingress.shared
      (.admitted a)).isSome) : mesh.Proceeds m tid (.admitted a) := by
  refine Or.inr ⟨.sample tid draw stillCircumstances, rfl, hdraw, monotone_const, ?_⟩
  obtain ⟨⟨y, q⟩, hresume⟩ := Option.isSome_iff_exists.mp hsome
  have hj : mesh.ingress.step m.ingress (.resume tid (.sample draw)) =
      some (m.ingress.move tid y q) := by
    have hresume : mesh.ingress.resume (.sample draw) m.ingress.shared (.admitted a) =
        some (y, q) := hresume
    simp only [Program.step, hp, hresume, Option.map_some]
  simp only [MeshConfig.step, hj, Option.bind_some]
  split
  · rfl
  · rename_i job worker hsent
    rw [State.task_move_self, Option.bind_some] at hsent
    obtain ⟨node, hnode⟩ := hroutes.exists_node hnamed hresume hsent
    have hfree : (m.calls worker.nodeId).task tid = none :=
      (h.requests tid).elsewhere worker.nodeId (by simp [hp, Point.worker?])
    simp only [hnode, Option.bind_some, Option.isSome_map, Program.step, hfree]
    rfl

omit [IsStrictOrderedRing K] in
/-- A request that its server can resume proceeds in the mesh. -/
theorem MeshConfig.Coherent.proceeds (hroutes : mesh.Routes)
    (hnamed : ∀ n node, mesh.nodes.get? n = some node → node.nodeId = n) {m : Mesh K}
    (h : mesh.Coherent m) (hserves : ServesAll mesh.platform mesh.config m.ingress) {tid : Nat}
    {p : Point K} (hp : m.ingress.task tid = some p) : mesh.Proceeds m tid p := by
  obtain hfinal | ⟨i, hdraw, hsome⟩ := (hserves.requests tid p hp).2.2.2.2
  · exact Or.inl hfinal
  have served : Unaided (.resume tid i) = true → mesh.Proceeds m tid p := fun hi => by
    refine Or.inr ⟨.serve (.resume tid i), rfl, trivial, trivial, ?_⟩
    simpa only [MeshConfig.step, hi, if_true, Option.isSome_map] using isSome_step hp hsome
  cases p with
  | refused | unserved | served => exact Or.inl trivial
  | admitted a =>
    cases i with
    | sample draw => exact h.proceeds_of_admitted hroutes hnamed hp (hdraw draw rfl) hsome
    | _ => cases hsome
  | executing a worker | streaming a worker _ =>
    exact h.proceeds_of_awaiting hp rfl rfl fun _ hsuits => hsuits
  | received | resolving | limiting | executed | sending =>
    cases i <;> first | exact served rfl | cases hsome

/-! ### From the launch on -/

/-- Numbers that the delays of a mock worker can be made of. -/
structure NodeSpec.Sound (spec : NodeSpec K) : Prop where
  baseDelaySec : ∀ b ∈ spec.baseDelaySec, 0 ≤ b
  loadFactor : ∀ f ∈ spec.loadFactor, 0 ≤ f

omit [Transcendental K] in
theorem sound_createNode {spec : NodeSpec K} (hspec : spec.Sound) {node : Node K}
    (h : createNode spec = .ok node) : node.Sound := by
  unfold createNode at h
  dsimp only at h
  split at h
  · cases h
  · split_ifs at h
    · obtain rfl := Except.ok.inj h
      refine ⟨?_, ?_⟩
      · cases hdelay : spec.baseDelaySec with
        | none => norm_num
        | some b => exact hspec.baseDelaySec b hdelay
      · cases hfactor : spec.loadFactor with
        | none => norm_num
        | some f => exact hspec.loadFactor f hfactor
    · split at h
      · cases h
      · obtain rfl := Except.ok.inj h
        trivial
    · split at h
      · cases h
      · obtain rfl := Except.ok.inj h
        trivial

omit [Transcendental K] in
theorem sound_createNodes {specs : List (NodeSpec K)} (hspecs : ∀ spec ∈ specs, spec.Sound)
    {nodes nodes' : Dict String (Node K)} (h : createNodes specs nodes = .ok nodes')
    (hnodes : ∀ n node, nodes.get? n = some node → node.nodeId = n ∧ node.Sound) :
    ∀ n node, nodes'.get? n = some node → node.nodeId = n ∧ node.Sound := by
  induction specs generalizing nodes with
  | nil =>
    obtain rfl := Except.ok.inj h
    exact hnodes
  | cons spec specs ih =>
    simp only [createNodes] at h
    split at h
    · cases h
    · rename_i created hcreated
      refine ih (fun spec' hspec' => hspecs spec' (List.mem_cons_of_mem _ hspec')) h
        fun n node hnode => ?_
      rw [Dict.get?_set] at hnode
      split_ifs at hnode with hn
      · obtain rfl := Option.some.inj hnode
        exact ⟨hn.symm, sound_createNode (hspecs spec List.mem_cons_self) hcreated⟩
      · exact hnodes n node hnode

omit [Transcendental K] in
/-- The nodes of a launched mesh. -/
theorem sound_of_launch {platform : Platform K} {texts : Texts} {settings : Settings K}
    {specs : List (NodeSpec K)} (hspecs : ∀ spec ∈ specs, spec.Sound) {around : Surroundings}
    {x : Shared K} (h : launch platform texts settings specs around = .ok (mesh, x)) :
    mesh.Sound := by
  obtain ⟨-, -, hcreated, -⟩ := of_launch h
  have heffective : ∀ spec ∈ (if specs.isEmpty then mockNodeSpecs else specs : List (NodeSpec K)),
      spec.Sound := by
    intro spec hspec
    split_ifs at hspec
    · obtain ⟨⟨nodeId, delay⟩, hmem, rfl⟩ := List.mem_map.mp hspec
      refine ⟨?_, fun f hf => (by cases hf)⟩
      rintro _ ⟨⟩
      simp only [List.mem_cons, Prod.mk.injEq, List.not_mem_nil, or_false] at hmem
      obtain ⟨-, rfl⟩ | ⟨-, rfl⟩ | ⟨-, rfl⟩ := hmem <;> norm_num
    · exact hspecs spec hspec
  have hnodes := sound_createNodes heffective hcreated fun n node hnode => by cases hnode
  exact ⟨fun n node hnode => (hnodes n node hnode).1, fun n node hnode => (hnodes n node hnode).2⟩

/-- A mesh that is launched from cold with a sound configuration is available all along, whatever
its requests and its workers do: what workers return and yield needs no assumption, other than that
no clock goes back. Each request that has not ended can take its next step. -/
theorem available_of_launch (platform : Platform K) (texts : Texts) (settings : Settings K)
    (hsettings : settings.Sound) (specs : List (NodeSpec K)) (hspecs : ∀ spec ∈ specs, spec.Sound)
    (around : Surroundings) (mesh : MeshConfig K) (x : Shared K)
    (hlaunch : launch platform texts settings specs around = .ok (mesh, x))
    (es : List (MeshEvent K)) (m : Mesh K)
    (hrun : Run.execAll mesh.step (.start x) es = some m)
    (hdraws : Run.EachStep mesh.step ValidSample (.start x) es)
    (htimely : ∀ e ∈ es, e.Timely) :
    ServesAll mesh.platform mesh.config m.ingress ∧
      ∀ tid p, m.ingress.task tid = some p → mesh.Proceeds m tid p := by
  obtain ⟨hlifespan, -, -, hroutes⟩ := of_launch hlaunch
  have hsettings : Settings.Sound { settings with
      workers := specs.map NodeSpec.toWorkerSpec } :=
    ⟨hsettings.weights, hsettings.temperature, hsettings.saturationScale⟩
  obtain ⟨hrouter, hscale, hrows⟩ := sound_of_lifespan hsettings hlifespan
  have hsound := sound_of_launch hspecs hlaunch
  have hfair := fair_run hsound hrun htimely hdraws
  have hserver := mesh.ingressProjection.execAll_trace hrun
  have hserves := servesAll_run (started_of_lifespan hlifespan) hrouter hscale hrows hserver
    (fun pre e post s hes hs => (hfair pre e post s hes hs).1)
    (fun pre e post s hes hs => (hfair pre e post s hes hs).2.1)
    (fun pre e post s hes hs => (hfair pre e post s hes hs).2.2)
  exact ⟨hserves, fun tid p hp =>
    (coherent_run hsound hrun htimely).proceeds hroutes hsound.named hserves hp⟩

end Runs

/-! ## A mesh with one node -/

section Sample

attribute [local instance] unitExp

def sampleSpecs : List (NodeSpec ℚ) :=
  sampleSettings.workers.map fun spec => ⟨spec, none, none, none, none, none⟩

def sampleTexts : Texts := ⟨fun _ _ => "empty range", fun _ => .malformed, fun _ => ""⟩

def sampleMesh : MeshConfig ℚ where
  platform := samplePlatform
  config := sampleConfig
  texts := sampleTexts
  nodes := Dict.empty.set "a" ⟨.mock ⟨"a", 0.05, 0.5, 1⟩, ["cpu"]⟩

theorem launch_sample :
    launch samplePlatform sampleTexts sampleSettings sampleSpecs sampleSurroundings =
      .ok (sampleMesh, sampleShared) := rfl

theorem sound_sampleSettings : sampleSettings.Sound :=
  ⟨fun w hw => (by cases hw), fun t ht => (by cases ht), fun k hk => (by cases hk)⟩

theorem sound_sampleSpecs : ∀ spec ∈ sampleSpecs, spec.Sound := by
  intro spec hspec
  obtain ⟨spec', -, rfl⟩ := List.mem_map.mp hspec
  exact ⟨fun b hb => (by cases hb), fun f hf => (by cases hf)⟩

/-- A clock that ticks. -/
def sampleCircumstances : Circumstances ℚ := { stillCircumstances with clock := fun n => n }

/-- The request of `answeredRun`, with the mock worker that answers it. -/
def sampleMeshRun : List (MeshEvent ℚ) :=
  sampleRun.dropLast.map .serve ++
    [.sample 0 0 sampleCircumstances, .work 0 .next 0, .work 0 .next 0,
      .serve (.resume 0 (.answer "0a1b2c3d4e5f" 121))]

theorem timely_sampleMeshRun : ∀ e ∈ sampleMeshRun, e.Timely := by
  intro e he
  simp only [sampleMeshRun, List.mem_append, List.mem_map, List.mem_cons, List.not_mem_nil,
    or_false] at he
  obtain ⟨e', -, rfl⟩ | rfl | rfl | rfl | rfl := he
  · trivial
  · exact Nat.mono_cast
  · trivial
  · trivial
  · trivial

theorem sampleMeshRun_isSome :
    (Run.execAll sampleMesh.step (.start sampleShared) sampleMeshRun).isSome = true := by
  decide +kernel

instance (m : Mesh ℚ) (e : MeshEvent ℚ) : Decidable (ValidSample m e) :=
  match e with
  | .sample _ draw _ => inferInstanceAs (Decidable (draw < m.ingress.shared.field.nodeIds.length))
  | .serve _ | .work .. => inferInstanceAs (Decidable True)

theorem available_of_launch_sampleMeshRun :
    ∃ m, Run.execAll sampleMesh.step (.start sampleShared) sampleMeshRun = some m ∧
      ServesAll samplePlatform sampleConfig m.ingress ∧
      ∀ tid p, m.ingress.task tid = some p → sampleMesh.Proceeds m tid p := by
  obtain ⟨m, hm⟩ := Option.isSome_iff_exists.mp sampleMeshRun_isSome
  exact ⟨m, hm, available_of_launch samplePlatform sampleTexts sampleSettings sound_sampleSettings
    sampleSpecs sound_sampleSpecs sampleSurroundings sampleMesh sampleShared launch_sample
    sampleMeshRun m hm (Run.eachStep_of_decide _ (by decide +kernel)) timely_sampleMeshRun⟩

end Sample

end StigmergicMesh.Server
