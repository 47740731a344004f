import StigmergicMesh.Field.Ranges
import StigmergicMesh.Registry.Routing
import StigmergicMesh.Server.Deposits

/-!
# The server that starts up

`lifespan` over the in-memory field, without a checkpoint to warm up from: one dictionary of workers
gives the router its workers and the field its ids. Over such a server every draw of an index finds
a worker, every deposit finds its row, and no request is stuck.
-/

namespace StigmergicMesh.Server

open Auth RateLimit Tasks

variable {K : Type*}

/-! ## Configuration -/

/-- An entry of `server.workers`, with what decides whether there is a worker for it. -/
structure WorkerSpec where
  nodeId : Option String
  type : Option String
  baseUrl : Option String
  capabilityTags : Option (List String)

/-- An entry of `security.defaultTenantKeys`. -/
structure KeyEntry (K : Type*) where
  keyHash : Option String
  tenantId : Option String
  tier : Option String
  rpmLimit : Option Int
  tpmLimit : Option Int
  priorityWeight : Option K

/-- `config.yaml`. -/
structure Settings (K : Type*) where
  workers : List WorkerSpec
  weights : Dict String K
  temperature : Option K
  saturationScale : Option K
  decaySuccess : Option Bool
  decayCapability : Option Bool
  securityEnabled : Option Bool
  defaultTenantKeys : List (KeyEntry K)

/-- What the process finds around it: `STIGMERGIC_SECURITY_ENABLED`, whether redis-py can be
imported, and the keys of the limiter in Redis. -/
structure Surroundings where
  securityEnabled : Option String
  redisPy : Bool
  quotas : QuotaStore

inductive StartupError where
  /-- `KeyError(key)`. -/
  | keyError (key : String)
  /-- `ValueError(f"Unknown worker type: {wtype!r}")`. -/
  | unknownWorkerType (wtype : String)
  | field (e : FieldError)

/-! ## Startup -/

/-- `_create_worker`. -/
def createWorker (spec : WorkerSpec) : Except StartupError Worker :=
  let wtype := spec.type.getD "mock"
  match spec.nodeId with
  | none => .error (.keyError "node_id")
  | some nodeId =>
    let worker : Worker := ⟨nodeId, spec.capabilityTags.getD []⟩
    if wtype = "mock" then .ok worker
    else if wtype = "vllm" ∨ wtype = "ollama" then
      match spec.baseUrl with
      | none => .error (.keyError "base_url")
      | some _ => .ok worker
    else .error (.unknownWorkerType wtype)

/-- `{spec["node_id"]: _create_worker(spec) for spec in worker_specs}`. -/
def createWorkers : List WorkerSpec → Dict String Worker → Except StartupError (Dict String Worker)
  | [], workers => .ok workers
  | spec :: specs, workers =>
    match createWorker spec with
    | .error e => .error e
    | .ok worker => createWorkers specs (workers.set worker.nodeId worker)

/-- The workers of a configuration without any. -/
def mockSpecs : List WorkerSpec :=
  ["mock_node_0", "mock_node_1", "mock_node_2"].map fun n => ⟨some n, some "mock", none, none⟩

/-- `_entry_to_tenant`. -/
def entryToTenant [One K] (entry : KeyEntry K) : TenantContext K where
  tenantId := entry.tenantId.getD "unknown"
  tier := entry.tier.getD "pro"
  rpmLimit := entry.rpmLimit.getD 600
  tpmLimit := entry.tpmLimit.getD 100000
  priorityWeight := entry.priorityWeight.getD 1

/-- `_build_secret_keys_map`; an entry without a hash is passed over. -/
def buildSecretKeysMap [One K] : List (KeyEntry K) → Dict String (TenantContext K) →
    Dict String (TenantContext K)
  | [], mapping => mapping
  | entry :: rawKeys, mapping =>
    match entry.keyHash with
    | none => buildSecretKeysMap rawKeys mapping
    | some keyHash =>
      if keyHash = "" then buildSecretKeysMap rawKeys mapping
      else buildSecretKeysMap rawKeys (mapping.set keyHash (entryToTenant entry))

/-- `security.enabled`, which the environment overrides. -/
def securityEnabled (lower : String → String) (settings : Settings K) (around : Surroundings) :
    Bool :=
  match around.securityEnabled with
  | none => settings.securityEnabled.getD false
  | some value => lower value ∈ ["1", "true", "yes"]

section Startup

variable [Field K]

/-- `get_memory_field` of the backend `in_memory`. -/
def getMemoryField (settings : Settings K) (nodeIds : List String) :
    Except FieldError (InMemoryField K) :=
  InMemoryField.new nodeIds none (settings.saturationScale.getD 0.1)
    ⟨settings.decaySuccess.getD true, settings.decayCapability.getD true⟩

/-- `StigmergicRouterAgent(...)` in `lifespan`. -/
def routerOf (settings : Settings K) (workers : Dict String Worker) : Router K :=
  .new workers (some settings.weights) (some (settings.temperature.getD 0.5))
    (some (settings.weights.getD "delta" 1.5))

/-- `lifespan` up to its `yield`, with `_configure_security`: the backend is `in_memory`, and there
is no checkpoint to warm up from. -/
def lifespan (lower : String → String) (settings : Settings K) (around : Surroundings) :
    Except StartupError (Config K × Shared K) :=
  let specs := if settings.workers.isEmpty then mockSpecs else settings.workers
  match createWorkers specs Dict.empty with
  | .error e => .error e
  | .ok workers =>
    match getMemoryField settings workers.keys with
    | .error e => .error (.field e)
    | .ok field =>
      let enabled := securityEnabled lower settings around
      .ok
        ({ router := some (routerOf settings workers)
           secretKeysMap :=
             if enabled then some (buildSecretKeysMap settings.defaultTenantKeys Dict.empty)
             else none
           rateLimiter := enabled
           policyEngine := enabled
           redis := enabled && around.redisPy },
          { limiter := ⟨around.quotas, false⟩
            field := field
            counters := .zero })

end Startup

/-! ## What starts up -/

theorem createWorkers_spec {specs : List WorkerSpec} {workers workers' : Dict String Worker}
    (h : createWorkers specs workers = .ok workers')
    (hnamed : ∀ n w, workers.get? n = some w → w.nodeId = n) :
    (∀ n w, workers'.get? n = some w → w.nodeId = n) ∧
      ((specs ≠ [] ∨ workers.keys ≠ []) → workers'.keys ≠ []) := by
  induction specs generalizing workers with
  | nil =>
    obtain rfl := Except.ok.inj h
    exact ⟨hnamed, fun h => h.resolve_left fun hne => hne rfl⟩
  | cons spec specs ih =>
    simp only [createWorkers] at h
    split at h
    · cases h
    · rename_i worker hworker
      obtain ⟨hnamed', hkeys⟩ := ih h fun n w hw => by
        rw [Dict.get?_set] at hw
        split_ifs at hw with hn
        · obtain rfl := Option.some.inj hw
          exact hn.symm
        · exact hnamed n w hw
      refine ⟨hnamed', fun _ => hkeys (Or.inr fun hnil => ?_)⟩
      have hmem : worker.nodeId ∈ (workers.set worker.nodeId worker).keys :=
        Dict.mem_keys_set.mpr (Or.inl rfl)
      rw [hnil] at hmem
      cases hmem

/-- A server that has started up: its router's workers are under their own names, and they are the
nodes of its field. -/
structure Started [Field K] (config : Config K) (x : Shared K) : Prop where
  router : ∃ router, config.router = some router ∧
    (∀ n w, router.workers.get? n = some w → w.nodeId = n) ∧
      router.workers.keys = x.field.nodeIds
  consistent : x.field.Consistent
  nodeIds : x.field.nodeIds ≠ []

theorem started_of_lifespan [Field K] {lower : String → String} {settings : Settings K}
    {around : Surroundings} {config : Config K} {x : Shared K}
    (h : lifespan lower settings around = .ok (config, x)) : Started config x := by
  simp only [lifespan] at h
  split at h
  · cases h
  · rename_i workers hworkers
    obtain ⟨hnamed, hkeys⟩ := createWorkers_spec hworkers fun n w hw => by cases hw
    split at h
    · cases h
    · rename_i field hfield
      obtain ⟨rfl, rfl⟩ := Prod.mk.inj (Except.ok.inj h)
      obtain ⟨hnew, -⟩ := InMemoryField.eq_of_new hfield
      have hids : field.nodeIds = workers.keys := by rw [hnew]
      refine ⟨⟨_, rfl, hnamed, hids.symm⟩,
        (InMemoryField.consistent_new workers.nodupKeys none hfield).1, ?_⟩
      rw [hids]
      refine hkeys (Or.inl ?_)
      split_ifs with hempty
      · simp [mockSpecs]
      · simpa [List.isEmpty_iff] using hempty

/-! ## Configured keys -/

/-- An entry that the map has for a hash. -/
def KeyEntry.isFor (keyHash : String) (entry : KeyEntry K) : Bool :=
  keyHash ≠ "" ∧ entry.keyHash = some keyHash

/-- The last entry for a hash is the one that counts. -/
theorem get?_buildSecretKeysMap [One K] (rawKeys : List (KeyEntry K))
    (mapping : Dict String (TenantContext K)) (keyHash : String) :
    (buildSecretKeysMap rawKeys mapping).get? keyHash =
      ((rawKeys.reverse.find? (KeyEntry.isFor keyHash)).map entryToTenant).or
        (mapping.get? keyHash) := by
  induction rawKeys generalizing mapping with
  | nil => rfl
  | cons entry rawKeys ih =>
    rw [List.reverse_cons, List.find?_append]
    have skipped : entry.isFor keyHash = false →
        (buildSecretKeysMap rawKeys mapping).get? keyHash =
          (((rawKeys.reverse.find? (KeyEntry.isFor keyHash)).or
            ([entry].find? (KeyEntry.isFor keyHash))).map entryToTenant).or
              (mapping.get? keyHash) := fun h => by
      rw [ih, List.find?_singleton, h]
      simp
    cases hentry : entry.keyHash with
    | none =>
      rw [buildSecretKeysMap, hentry]
      exact skipped (by simp [KeyEntry.isFor, hentry])
    | some h =>
      rw [buildSecretKeysMap, hentry]
      dsimp only
      split_ifs with hempty
      · exact skipped (by simp [KeyEntry.isFor, hentry, hempty, eq_comm])
      · by_cases hsame : keyHash = h
        · subst hsame
          have hfor : entry.isFor keyHash = true := by simp [KeyEntry.isFor, hentry, hempty]
          rw [ih, Dict.get?_set, List.find?_singleton, hfor]
          cases rawKeys.reverse.find? (KeyEntry.isFor keyHash) <;> simp
        · have hnot : entry.isFor keyHash = false := by
            simp [KeyEntry.isFor, hentry, Ne.symm hsame]
          rw [ih, Dict.get?_set, if_neg hsame, List.find?_singleton, hnot]
          simp

/-- Redis knows no tenant for the key: it was not asked, or it raised, or what it holds cannot be
read as a tenant. -/
def Unknown (readers : Readers K) (reply : Option (Except String (Dict Bytes Bytes))) : Prop :=
  ∀ raw, reply = some (.ok raw) → hashToContext readers raw = none

/-- With security on, a key that Redis does not know is the key of the last configured entry for its
hash, with the defaults of what the entry leaves out; without an entry it is refused. -/
theorem configured_tenant [Field K] (platform : Platform K) (settings : Settings K)
    (around : Surroundings) (config : Config K) (x : Shared K)
    (hstart : lifespan platform.lower settings around = .ok (config, x))
    (henabled : securityEnabled platform.lower settings around = true) (r : Request)
    (token : String) (hpresents : Presents platform.lower r.authorization token)
    (reply : Option (Except String (Dict Bytes Bytes))) (hreply : Unknown platform.readers reply) :
    tenantOf platform config reply r =
      match settings.defaultTenantKeys.reverse.find?
        (KeyEntry.isFor (hashKey platform.sha256 token)) with
      | some entry => .ok (entryToTenant entry)
      | none => .error ⟨"invalid_key", "Invalid or missing API key"⟩ := by
  have hkeys : config.secretKeysMap =
      some (buildSecretKeysMap settings.defaultTenantKeys Dict.empty) := by
    simp only [lifespan] at hstart
    split at hstart
    · cases hstart
    · split at hstart
      · cases hstart
      · obtain ⟨rfl, -⟩ := Prod.mk.inj (Except.ok.inj hstart)
        simp [henabled]
  rw [tenantOf, hkeys, Option.map_some, getCurrentTenant_of_presents hpresents,
    APIKeyAuthenticator.validateApiKey_of_unknown hpresents.token_ne (by
      rintro hgetall hh raw hraw
      obtain ⟨reply', hr, rfl⟩ := Option.map_eq_some_iff.mp hh
      exact hreply raw (hr.trans (congrArg some hraw)))]
  simp only [APIKeyAuthenticator.fallback, get?_buildSecretKeysMap, Dict.get?_empty, Option.or_none]
  cases settings.defaultTenantKeys.reverse.find?
    (KeyEntry.isFor (hashKey platform.sha256 token)) <;> rfl

/-! ## Availability -/

section Available

variable [Field K] [LinearOrder K] [Transcendental K] {platform : Platform K} {config : Config K}

/-- What the random generator draws. -/
def draw? : IngressEvent K → Option Nat
  | .resume _ (.sample draw) => some draw
  | _ => none

/-- The random generator draws the index of a node. -/
def ValidDraw (s : IngressState K) (e : IngressEvent K) : Prop :=
  ∀ draw ∈ draw? e, draw < s.shared.field.nodeIds.length

instance (s : IngressState K) (e : IngressEvent K) : Decidable (ValidDraw s e) :=
  inferInstanceAs (Decidable (∀ draw ∈ draw? e, draw < s.shared.field.nodeIds.length))

namespace Point

/-- There is nothing left to do. -/
def Final : Point K → Prop
  | .refused .. => True
  | .unserved .. => True
  | .served .. => True
  | _ => False

/-- The request can go on, and the mesh has not failed it. -/
def Healthy : Point K → Prop
  | .limiting _ _ call => Pending call
  | .refused _ _ .notReady => False
  | .unserved .. => False
  | _ => True

end Point

/-- A step of a request over the nodes of the router. -/
theorem healthy_resume {router : Router K} (hrouter : config.router = some router)
    {s : IngressState K} (hf : s.shared.field.Consistent)
    (hids : router.workers.keys = s.shared.field.nodeIds)
    {tid : Nat} {i : Input K} (hdraw : ValidDraw s (.resume tid i)) {p : Point K}
    {next : Shared K × Point K} (h : resume platform config i s.shared p = some next) :
    next.2.Healthy := by
  cases step_of_resume h with
  | notReady _ _ hnone => simp [hrouter] at hnone
  | evaluate _ hpending => exact hpending
  | @unserved a router' draw e hrouter' herror =>
    obtain rfl := Option.some.inj (hrouter.symm.trans hrouter')
    obtain ⟨worker, hworker⟩ := Router.sampleWorker_of_sameIds hf
      (fun n => by rw [hids]) (capContext platform a.request)
      (governedWeights config router a.tenant) (hdraw draw rfl)
    cases hworker.symm.trans herror
  | ask | unauthorized | noClient | call | unlimited | allow | deny | limiterRaised | stream |
      dispatch | execute | depositRaised | answer | usageRaised | chunk | next | broken | close |
      finish | abort | cancel => trivial

omit [Field K] [LinearOrder K] [Transcendental K] in
/-- A call of the limiter that is in progress can go on. -/
theorem exists_resume_of_pending {call : RateLimit.Point} (h : Pending call)
    (l : RateLimit.Shared) : ∃ i, (RateLimit.resume i l call).isSome := by
  cases call with
  | start c => exact ⟨.now 0, rfl⟩
  | window c now rpm stage =>
    cases stage with
    | ensureScript => exact ⟨.scriptLoad, rfl⟩
    | evalsha | eval => exact ⟨.execute .replied 0, rfl⟩
  | returned | raised => exact h.elim

/-- A request that the mesh has not failed has ended or can go on. -/
theorem Point.Healthy.final_or_resume {router : Router K} (hrouter : config.router = some router)
    {s : IngressState K} (hne : s.shared.field.nodeIds ≠ []) (tid : Nat) {p : Point K}
    (h : p.Healthy) :
    p.Final ∨ ∃ i, ValidDraw s (.resume tid i) ∧ (resume platform config i s.shared p).isSome := by
  have undrawn : ∀ {i : Input K}, draw? (.resume tid i) = none → ValidDraw s (.resume tid i) :=
    fun hi draw hdraw => by
      rw [hi] at hdraw
      cases hdraw
  cases p with
  | refused | unserved | served => exact Or.inl trivial
  | received r =>
    refine Or.inr ⟨.begin, undrawn rfl, ?_⟩
    simp only [resume]
    split_ifs <;> rfl
  | resolving r => exact Or.inr ⟨.hgetall (.ok Dict.empty), undrawn rfl, rfl⟩
  | limiting r tenant call =>
    obtain ⟨i, hi⟩ := exists_resume_of_pending h s.shared.limiter
    exact Or.inr ⟨.limiter i, undrawn rfl, by simpa [resume] using hi⟩
  | admitted a =>
    refine Or.inr ⟨.sample 0, fun draw hdraw => ?_, ?_⟩
    · obtain rfl := Option.some.inj hdraw
      exact List.length_pos_iff.mpr hne
    · simp [resume, hrouter]
  | executing a worker => exact Or.inr ⟨.execute .raised, undrawn rfl, rfl⟩
  | executed a worker result text => exact Or.inr ⟨.answer "" 0, undrawn rfl, rfl⟩
  | streaming a worker p => exact Or.inr ⟨.finish .finished, undrawn rfl, rfl⟩
  | sending a worker p c => exact Or.inr ⟨.next, undrawn rfl, rfl⟩

/-- The healthy requests of a run over a started server. -/
theorem healthy_run {x : Shared K} (hstarted : Started config x) {es : List (IngressEvent K)}
    {s : IngressState K} (hrun : Run.execAll (ingress platform config).step (.start x) es = some s)
    (hdraws : Run.EachStep (ingress platform config).step ValidDraw (.start x) es) :
    s.shared.field.nodeIds = x.field.nodeIds ∧ ∀ tid p, s.task tid = some p → p.Healthy := by
  obtain ⟨router, hrouter, -, hids⟩ := hstarted.router
  have houtline : (ingress platform config).Outline (τ := Nat) x ValidDraw
      (fun _ y => y.field.Consistent ∧ y.field.nodeIds = x.field.nodeIds)
      (fun _ _ _ p => p.Healthy) :=
    { start := ⟨hstarted.consistent, rfl⟩
      spawn := fun es s tid r _ hann _ => ⟨hann.1, trivial⟩
      resume := fun es s tid i p y q _ hann hdraw hp hx => by
        obtain ⟨hc, hsame⟩ := hann.1
        obtain ⟨ds, -, hfield, -⟩ := resume_deposits hx
        have hrows := rowsOnly_run_deposits s.shared.field ds
        rw [← hfield] at hrows
        exact ⟨⟨hrows.consistent hc, hrows.nodeIds.trans hsame⟩,
          healthy_resume hrouter hc (hids.trans hsame.symm) hdraw hx⟩
      external := fun es s rate y _ hann _ hy => by
        obtain rfl := Option.some.inj hy
        have hrows := s.shared.field.applyEvaporation_rowsOnly rate
        exact ⟨hrows.consistent hann.1.1, hrows.nodeIds.trans hann.1.2⟩
      stable := fun _ _ _ _ _ _ _ _ _ _ _ _ h => h }
  obtain ⟨⟨-, hsame⟩, htasks⟩ := houtline.run _ hrun hdraws
  exact ⟨hsame, htasks⟩

/-! ## Numbers -/

/-- What workers measure is not negative. -/
def Measured (e : IngressEvent K) : Prop :=
  (∀ r ∈ returned? e, 0 ≤ r.2.latencySec ∧ 0 ≤ r.2.activeLoad) ∧
    ∀ c ∈ learned? e, 0 ≤ c.elapsed ∧ 0 ≤ c.activeLoad.getD 0

instance (e : IngressEvent K) : Decidable (Measured e) :=
  inferInstanceAs (Decidable ((∀ r ∈ returned? e, 0 ≤ r.2.latencySec ∧ 0 ≤ r.2.activeLoad) ∧
    ∀ c ∈ learned? e, 0 ≤ c.elapsed ∧ 0 ≤ c.activeLoad.getD 0))

/-- A configuration that the scores are made for. -/
structure Settings.Sound (settings : Settings K) : Prop where
  weights : ∀ w ∈ settings.weights.values, 0 ≤ w
  temperature : ∀ t ∈ settings.temperature, 0 < t
  saturationScale : ∀ k ∈ settings.saturationScale, 0 ≤ k

/-- There is a router, and the scores are made for its weights and its temperature. -/
def Config.Sound (config : Config K) : Prop :=
  ∃ router, config.router = some router ∧ router.weights.Nonneg ∧ 0 < router.temperature

/-- What a request can deposit next is not negative. -/
def Point.Nonneg (platform : Platform K) (p : Point K) : Prop :=
  ∀ d, p.Observes platform d → 0 ≤ d.2.latencySec ∧ 0 ≤ d.2.activeLoad

/-- A step of a request. -/
theorem nonneg_resume {s : IngressState K} {tid : Nat} {i : Input K}
    (hmeasured : Measured (.resume tid i : IngressEvent K)) {p : Point K}
    {next : Shared K × Point K} (h : resume platform config i s.shared p = some next) :
    next.2.Nonneg platform := by
  cases step_of_resume h with
  | @execute a worker ended =>
    rintro t rfl
    cases ended with
    | returned result text => exact hmeasured.1 (tid, result) rfl
    | raised => exact ⟨le_rfl, le_rfl⟩
  | chunk =>
    rintro t ⟨success, rfl⟩
    exact hmeasured.2 _ rfl
  | ask | unauthorized | notReady | noClient | call | unlimited | evaluate | allow | deny |
      limiterRaised | unserved | stream | dispatch | depositRaised | answer | usageRaised | next |
      broken | close | finish | abort | cancel => exact fun t ht => ht.elim

section Ordered

variable [IsStrictOrderedRing K]

/-- The rows of a run in which workers measure nothing negative. -/
theorem inRange_run {x : Shared K} (hscale : 0 ≤ x.field.saturationScale)
    (hrows : ∀ r ∈ x.field.state, r.InRange) {es : List (IngressEvent K)} {s : IngressState K}
    (hrun : Run.execAll (ingress platform config).step (.start x) es = some s)
    (hmeasured : Run.EachStep (ingress platform config).step (fun _ e => Measured e)
      (.start x) es) :
    ∀ r ∈ s.shared.field.state, r.InRange := by
  have run : ∀ (f : InMemoryField K) (ops : List (InMemoryField.Op K)),
      (0 ≤ f.saturationScale ∧ ∀ r ∈ f.state, r.InRange) → (∀ op ∈ ops, op.Nonneg) →
      0 ≤ (f.run ops).saturationScale ∧ ∀ r ∈ (f.run ops).state, r.InRange := by
    rintro f ops ⟨hf, hstate⟩ hops
    exact ⟨(InMemoryField.run_settings f ops).1 ▸ hf,
      fun r hr => (InMemoryField.run_inRange hf hstate hops r hr).1⟩
  have houtline : (ingress platform config).Outline (τ := Nat) x (fun _ e => Measured e)
      (fun _ y => 0 ≤ y.field.saturationScale ∧ ∀ r ∈ y.field.state, r.InRange)
      (fun _ _ _ p => p.Nonneg platform) :=
    { start := ⟨hscale, hrows⟩
      spawn := fun es s tid r _ hann _ => ⟨hann.1, fun t ht => ht.elim⟩
      resume := fun es s tid i p y q _ hann hG hp hx => by
        obtain ⟨ds, -, hfield, hobserved⟩ := resume_deposits hx
        refine ⟨?_, nonneg_resume (s := s) hG hx⟩
        have hfield : y.field = s.shared.field.run (ds.map depositOp) := hfield
        rw [hfield]
        refine run _ _ hann.1 fun op hop => ?_
        obtain ⟨d, hd, rfl⟩ := List.mem_map.mp hop
        exact hann.2 tid p hp d (hobserved d hd)
      external := fun es s rate y _ hann _ hy => by
        obtain rfl := Option.some.inj hy
        exact run _ [.applyEvaporation rate] hann.1 fun op hop => by
          obtain rfl := List.mem_singleton.mp hop
          trivial
      stable := fun _ _ _ _ _ _ _ _ _ _ _ _ h => h }
  exact (houtline.run _ hrun hmeasured).1.2

omit [Transcendental K] in
/-- The weights that a request of a tenant is routed with are not negative. -/
theorem governedWeights_nonneg {router : Router K} (hw : router.weights.Nonneg)
    (tenant : TenantContext K) :
    (router.weightsFor (governedWeights config router tenant)).Nonneg := by
  refine Router.weightsFor_nonneg hw fun d hd => ?_
  unfold governedWeights at hd
  split_ifs at hd with hengine
  obtain rfl := Option.some.inj hd
  refine TenantPolicyEngine.applyGovernanceBias_nonneg _ fun w hmem => ?_
  obtain ⟨name, hname⟩ := (Dict.mem_values_iff _ w).mp hmem
  have hbase := Dict.mem_of_get?_ofList hname
  simp only [List.mem_cons, Prod.mk.injEq, List.not_mem_nil, or_false] at hbase
  obtain ⟨-, rfl⟩ | ⟨-, rfl⟩ | ⟨-, rfl⟩ | ⟨-, rfl⟩ := hbase
  · exact hw.alpha
  · exact hw.beta
  · exact hw.gamma
  · exact hw.delta

omit [Transcendental K] in
/-- The router and the rows of a sound configuration. -/
theorem sound_of_lifespan {lower : String → String} {settings : Settings K}
    (hsound : settings.Sound) {around : Surroundings} {x : Shared K}
    (h : lifespan lower settings around = .ok (config, x)) :
    config.Sound ∧ 0 ≤ x.field.saturationScale ∧ ∀ r ∈ x.field.state, r.InRange := by
  simp only [lifespan] at h
  split at h
  · cases h
  · rename_i workers _
    split at h
    · cases h
    · rename_i field hfield
      obtain ⟨rfl, rfl⟩ := Prod.mk.inj (Except.ok.inj h)
      have hnew : InMemoryField.new workers.keys none (settings.saturationScale.getD 0.1) _ =
          .ok field := hfield
      obtain ⟨-, hscale, hrows⟩ := InMemoryField.new_inRange (fun rows h => by cases h) hnew
      refine ⟨⟨_, rfl, ?_, ?_⟩, ?_, hrows⟩
      · exact ⟨Router.getD_nonneg hsound.weights zero_le_one,
          Router.getD_nonneg hsound.weights (by norm_num),
          Router.getD_nonneg hsound.weights (by norm_num),
          Router.getD_nonneg hsound.weights (by norm_num)⟩
      · cases htemperature : settings.temperature with
        | none => norm_num [routerOf, Router.new, htemperature]
        | some t =>
          simpa [routerOf, Router.new, htemperature] using hsound.temperature t htemperature
      · rw [hscale]
        cases hsaturation : settings.saturationScale with
        | none => norm_num
        | some k => exact hsound.saturationScale k hsaturation

end Ordered

/-- The server is available: no request is told that it is not ready, none fails in choosing its
worker or in depositing its traces, be it for a document or for a stream, and one that has not ended
can go on; no score divides by zero, for the weights of any tenant, and the temperature is positive.
-/
structure ServesAll (platform : Platform K) (config : Config K) (s : IngressState K) : Prop where
  requests : ∀ tid p, s.task tid = some p →
    (∀ r call, p ≠ .refused r call .notReady) ∧ (∀ a e, p ≠ .unserved a e) ∧
      (∀ a worker, p ≠ .served a worker .depositRaised) ∧
      (∀ a worker progress, p ≠ .served a worker (.broken progress)) ∧
      (p.Final ∨ ∃ i, ValidDraw s (.resume tid i) ∧ (resume platform config i s.shared p).isSome)
  scores : ∃ router, config.router = some router ∧ 0 < router.temperature ∧
    ∀ tenant, ∀ r ∈ s.shared.field.state,
      0 < Router.scoreDenominator (router.weightsFor (governedWeights config router tenant)) r

/-- A started server whose rows are in range stays available, whatever requests interleave. -/
theorem servesAll_run [IsStrictOrderedRing K] {x : Shared K} (hstarted : Started config x)
    (hsound : config.Sound) (hscale : 0 ≤ x.field.saturationScale)
    (hrows : ∀ r ∈ x.field.state, r.InRange) {es : List (IngressEvent K)} {s : IngressState K}
    (hrun : Run.execAll (ingress platform config).step (.start x) es = some s)
    (hdraws : Run.EachStep (ingress platform config).step ValidDraw (.start x) es)
    (hcarries : Run.EachStep (ingress platform config).step CarriesNodeId (.start x) es)
    (hmeasured : Run.EachStep (ingress platform config).step (fun _ e => Measured e)
      (.start x) es) : ServesAll platform config s := by
  obtain ⟨router, hrouter, hnamed, -⟩ := hstarted.router
  obtain ⟨hids, htasks⟩ := healthy_run hstarted hrun hdraws
  obtain ⟨router', hrouter', hweights, htemperature⟩ := hsound
  have hrange := inRange_run hscale hrows hrun hmeasured
  refine ⟨fun tid p hp => ?_, router', hrouter', htemperature, fun tenant r hr => ?_⟩
  · have hhealthy := htasks tid p hp
    have hkept := kept_run (by
      intro router'' hrouter''
      obtain rfl := Option.some.inj (hrouter.symm.trans hrouter'')
      exact hnamed) hstarted.consistent hrun hcarries hp
    refine ⟨?_, ?_, ?_, ?_, hhealthy.final_or_resume hrouter (hids ▸ hstarted.nodeIds) tid⟩
    · rintro r call rfl
      exact hhealthy
    · rintro a e rfl
      exact hhealthy
    · rintro a worker rfl
      exact (hkept.assigned worker rfl).2
    · rintro a worker progress rfl
      exact (hkept.assigned worker rfl).2
  · exact Router.scoreDenominator_pos (governedWeights_nonneg hweights tenant)
      (hrange r hr).L_nonneg (hrange r hr).S_nonneg

/-- From a cold start over the in-memory field, whatever requests interleave, a server with a sound
configuration is available all along. -/
theorem available [IsStrictOrderedRing K] (platform : Platform K) (settings : Settings K)
    (hsound : settings.Sound) (around : Surroundings) (config : Config K) (x : Shared K)
    (hstart : lifespan platform.lower settings around = .ok (config, x))
    (es : List (IngressEvent K)) (s : IngressState K)
    (hrun : Run.execAll (ingress platform config).step (.start x) es = some s)
    (hdraws : Run.EachStep (ingress platform config).step ValidDraw (.start x) es)
    (hcarries : Run.EachStep (ingress platform config).step CarriesNodeId (.start x) es)
    (hmeasured : Run.EachStep (ingress platform config).step (fun _ e => Measured e)
      (.start x) es) : ServesAll platform config s := by
  obtain ⟨hrouter, hscale, hrows⟩ := sound_of_lifespan hsound hstart
  exact servesAll_run (started_of_lifespan hstart) hrouter hscale hrows hrun hdraws hcarries
    hmeasured

end Available

/-! ## A server with one worker -/

section Sample

attribute [local instance] unitExp

/-- One worker, and one key. -/
def sampleSettings : Settings ℚ where
  workers := [⟨some "a", none, none, some ["cpu"]⟩]
  weights := Dict.empty
  temperature := none
  saturationScale := none
  decaySuccess := none
  decayCapability := none
  securityEnabled := some true
  defaultTenantKeys := [⟨some "5e88", some "acme", none, some 1, some 100, none⟩]

def sampleSurroundings : Surroundings := ⟨none, true, fun _ => Quota.empty⟩

theorem lifespan_sample :
    lifespan samplePlatform.lower sampleSettings sampleSurroundings =
      .ok (sampleConfig, sampleShared) := rfl

theorem configured_tenant_sample :
    tenantOf samplePlatform sampleConfig (some (.ok Dict.empty)) sampleRequest =
      .ok ⟨"acme", "pro", 1, 100, 1⟩ :=
  configured_tenant samplePlatform sampleSettings sampleSurroundings sampleConfig sampleShared
    lifespan_sample rfl sampleRequest "key" (presents_iff.mpr ⟨"bearer", by decide⟩) _
    (by
      rintro raw h
      obtain rfl := Except.ok.inj (Option.some.inj h)
      rfl)

theorem available_answeredRun :
    ∃ s, Run.execAll (ingress samplePlatform sampleConfig).step (.start sampleShared) answeredRun =
        some s ∧
      ∀ tid p, s.task tid = some p → ∀ a e, p ≠ .unserved a e := by
  have hrun : (Run.execAll (ingress samplePlatform sampleConfig).step (.start sampleShared)
      answeredRun).isSome = true := by decide +kernel
  obtain ⟨s, hs⟩ := Option.isSome_iff_exists.mp hrun
  have hserves := available samplePlatform sampleSettings
    ⟨fun w hw => (by cases hw), fun t ht => (by cases ht), fun k hk => (by cases hk)⟩
    sampleSurroundings sampleConfig sampleShared lifespan_sample answeredRun s hs
    (Run.eachStep_of_decide _ (by decide +kernel)) carries_answeredRun
    (Run.eachStep_of_decide _ (by decide +kernel))
  exact ⟨s, hs, fun tid p hp => (hserves.requests tid p hp).2.1⟩

end Sample

end StigmergicMesh.Server
