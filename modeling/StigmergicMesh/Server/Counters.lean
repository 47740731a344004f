import StigmergicMesh.Server.Deposits

/-!
# What the counters count

Each step of the server raises a counter by what becomes true of its request, so a counter counts
the requests of which it is true: results by node and status, 401s by reason, and 429s by tenant id
and by the windows that rejected. A result is counted before its document is made, also if it has
none. Streams are in none of them.
-/

namespace StigmergicMesh.Server

open Auth RateLimit Tasks

variable {K : Type*}

/-- The label of a window in `stigmergic_rate_limit_exceeded_total`. -/
def dimension : Window → String
  | .rpm => "rpm"
  | .tpm => "tpm"

namespace Point

/-- The worker's result was deposited, of this node and with this status: the request was answered
with a document, or there is none. -/
def completed (nodeId status : String) : Point K → Bool
  | .served _ _ (.json result _) => result.nodeId = nodeId ∧ statusOf result = status
  | .served _ _ (.usageRaised result) => result.nodeId = nodeId ∧ statusOf result = status
  | _ => false

/-- The request was refused with a 401 for this reason. -/
def unauthorized (reason : String) : Point K → Bool
  | .refused _ _ (.unauthorized u) => u.reason = reason
  | _ => false

/-- The request was refused with a 429, and this window of the tenant id rejected it. -/
def exceeded (tenantId : String) (w : Window) : Point K → Bool
  | .refused _ (some call) .rateLimitExceeded =>
    call.check.tenant.tenantId = tenantId ∧ call.passed w = false
  | _ => false

/-- A request that a counter can speak of. -/
def counted : Point K → Bool
  | .refused _ _ (.unauthorized _) => true
  | .refused _ _ .rateLimitExceeded => true
  | .served _ _ (.json ..) => true
  | .served _ _ (.usageRaised _) => true
  | _ => false

end Point

/-- The counters go from one value to another by what becomes true of a request. -/
structure Counts (c : Counters) (p : Point K) (c' : Counters) (q : Point K) : Prop where
  requests : ∀ nodeId status, c'.requestsTotal nodeId status +
    (p.completed nodeId status).toNat =
      c.requestsTotal nodeId status + (q.completed nodeId status).toNat
  authFailures : ∀ reason, c'.authFailuresTotal reason + (p.unauthorized reason).toNat =
    c.authFailuresTotal reason + (q.unauthorized reason).toNat
  exceeded : ∀ tenantId w, c'.rateLimitExceededTotal tenantId (dimension w) +
    (p.exceeded tenantId w).toNat =
      c.rateLimitExceededTotal tenantId (dimension w) + (q.exceeded tenantId w).toNat

/-- Nothing that is counted is true of the request. -/
structure Uncounted (p : Point K) : Prop where
  completed : ∀ nodeId status, p.completed nodeId status = false
  unauthorized : ∀ reason, p.unauthorized reason = false
  exceeded : ∀ tenantId w, p.exceeded tenantId w = false

theorem Uncounted.of_counted {p : Point K} (h : p.counted = false) : Uncounted p := by
  cases p with
  | refused r call why =>
    cases why with
    | unauthorized | rateLimitExceeded => cases h
    | notReady | limiterRaised =>
      exact ⟨fun _ _ => rfl, fun _ => rfl, fun _ _ => by cases call <;> rfl⟩
  | served a worker answer =>
    cases answer with
    | json | usageRaised => cases h
    | depositRaised | aborted | streamed | broken | disconnected | cancelled =>
      exact ⟨fun _ _ => rfl, fun _ => rfl, fun _ _ => rfl⟩
  | _ => exact ⟨fun _ _ => rfl, fun _ => rfl, fun _ _ => rfl⟩

theorem Counts.of_uncounted {c : Counters} {p q : Point K} (hp : Uncounted p) (hq : Uncounted q) :
    Counts c p c q where
  requests nodeId status := by rw [hp.completed, hq.completed]
  authFailures reason := by rw [hp.unauthorized, hq.unauthorized]
  exceeded tenantId w := by rw [hp.exceeded, hq.exceeded]

/-! ## One step -/

theorem counts_unauthorized {p : Point K} (hp : Uncounted p) (c : Counters) (r : Request)
    (u : Unauthorized) :
    Counts c p (c.incAuthFailures u.reason) (.refused r none (.unauthorized u)) where
  requests nodeId status := by
    rw [hp.completed]
    rfl
  authFailures reason := by
    rw [hp.unauthorized]
    by_cases h : reason = u.reason
    · simp [Counters.incAuthFailures, Point.unauthorized, h]
    · simp [Counters.incAuthFailures, Point.unauthorized, h, Ne.symm h]
  exceeded tenantId w := by
    rw [hp.exceeded]
    rfl

theorem counts_result {p q : Point K} (hp : Uncounted p) (c : Counters)
    (result : InferenceResult K)
    (hq : ∀ nodeId status, q.completed nodeId status =
      decide (result.nodeId = nodeId ∧ statusOf result = status))
    (hunauthorized : ∀ reason, q.unauthorized reason = false)
    (hexceeded : ∀ tenantId w, q.exceeded tenantId w = false) :
    Counts c p (c.incRequests result.nodeId (statusOf result)) q where
  requests nodeId status := by
    rw [hp.completed, hq]
    by_cases h : nodeId = result.nodeId ∧ status = statusOf result
    · simp [Counters.incRequests, h]
    · have h' : ¬(result.nodeId = nodeId ∧ statusOf result = status) := fun hc =>
        h ⟨hc.1.symm, hc.2.symm⟩
      simp [Counters.incRequests, h, h']
  authFailures reason := by
    rw [hp.unauthorized, hunauthorized]
    rfl
  exceeded tenantId w := by
    rw [hp.exceeded, hexceeded]
    rfl

/-- The windows that `info` lists are those that did not pass. -/
theorem count_exceeded (tenant : RateLimit.Tenant) (rpm tpm : WindowResult) (c : RateLimit.Check)
    (w : Window) :
    (buildInfo tenant rpm tpm).exceeded.count (dimension w) =
      if (RateLimit.Point.returned c (buildInfo tenant rpm tpm)).passed w = false then 1
      else 0 := by
  cases w <;> cases hrpm : rpm.allowed <;> cases htpm : tpm.allowed <;>
    simp [buildInfo, dimension, RateLimit.Point.passed, hrpm, htpm]

theorem passed_of_allowed {tenant : RateLimit.Tenant} {rpm tpm : WindowResult}
    (h : (buildInfo tenant rpm tpm).allowed = true) (c : RateLimit.Check) (w : Window) :
    (RateLimit.Point.returned c (buildInfo tenant rpm tpm)).passed w = true := by
  obtain ⟨hrpm, htpm⟩ : rpm.allowed = true ∧ tpm.allowed = true := by simpa [buildInfo] using h
  cases w <;> simpa [RateLimit.Point.passed, buildInfo]

/-- A call of the limiter that has returned. -/
theorem counts_returned {r : Request} {tenant : TenantContext K} {rpm tpm : WindowResult}
    {p q : Point K} (hp : Uncounted p)
    (hq : ∀ tenantId w, q.exceeded tenantId w = decide (tenant.tenantId = tenantId ∧
      (RateLimit.Point.returned (checkOf r tenant)
        (buildInfo (checkOf r tenant).tenant rpm tpm)).passed w = false))
    (hcompleted : ∀ nodeId status, q.completed nodeId status = false)
    (hunauthorized : ∀ reason, q.unauthorized reason = false) (c : Counters) :
    Counts c p (c.incExceeded tenant.tenantId
      (buildInfo (checkOf r tenant).tenant rpm tpm).exceeded) q where
  requests nodeId status := by
    rw [hp.completed, hcompleted]
    rfl
  authFailures reason := by
    rw [hp.unauthorized, hunauthorized]
    rfl
  exceeded tenantId w := by
    rw [hp.exceeded, hq]
    simp only [Counters.incExceeded, count_exceeded _ _ _ (checkOf r tenant)]
    by_cases hid : tenantId = tenant.tenantId
    · subst hid
      cases (RateLimit.Point.returned (checkOf r tenant)
        (buildInfo (checkOf r tenant).tenant rpm tpm)).passed w <;> simp
    · simp [hid, Ne.symm hid]

section Run

variable [Field K] [LinearOrder K] [Transcendental K] {platform : Platform K} {config : Config K}

/-- A step raises the counters by what becomes true of its request. -/
theorem counts_resume {i : Input K} {x : Shared K} {p : Point K} {next : Shared K × Point K}
    {es : List (IngressEvent K)} {tid : Nat} (hletIn : LetIn platform config es tid p)
    (h : resume platform config i x p = some next) :
    Counts x.counters p next.1.counters next.2 := by
  cases step_of_resume h with
  | unauthorized ha =>
    exact counts_unauthorized (.of_counted (by cases ha <;> rfl)) ..
  | notReady ha | noClient ha | call ha | unlimited ha =>
    exact .of_uncounted (.of_counted (by cases ha <;> rfl)) (.of_counted rfl)
  | @allow r tenant call i l c info hl hallowed =>
    obtain rfl : c = checkOf r tenant :=
      (resume_check hl).trans (hletIn.limiting r tenant call rfl).2
    obtain ⟨rpm, tpm, rfl⟩ := exists_buildInfo hl
    refine counts_returned (.of_counted rfl) (fun tenantId w => ?_) (fun _ _ => rfl)
      (fun _ => rfl) _
    rw [passed_of_allowed hallowed]
    simp [Point.exceeded]
  | @deny r tenant call i l c info hl hallowed =>
    obtain rfl : c = checkOf r tenant :=
      (resume_check hl).trans (hletIn.limiting r tenant call rfl).2
    obtain ⟨rpm, tpm, rfl⟩ := exists_buildInfo hl
    exact counts_returned (.of_counted rfl) (fun tenantId w => rfl) (fun _ _ => rfl)
      (fun _ => rfl) _
  | answer | usageRaised =>
    exact counts_result (.of_counted rfl) _ _ (fun _ _ => rfl) (fun _ => rfl) fun _ _ => rfl
  | ask | evaluate | limiterRaised | unserved | stream | dispatch | execute | depositRaised |
      chunk | next | broken | close | finish | abort | cancel =>
    exact .of_uncounted (.of_counted rfl) (.of_counted rfl)

/-- The requests of a run of which something is true. -/
def countOf (es : List (IngressEvent K)) (s : IngressState K) (f : Point K → Bool) : Nat :=
  ((names es).filter fun tid => (s.task tid).any f).card

/-- In every run of the server, whatever requests interleave, each counter counts exactly the
requests of which it speaks, each once: `stigmergic_requests_total` those whose result was
deposited, by node and status, `stigmergic_auth_failures_total` the 401s, by reason, and
`stigmergic_rate_limit_exceeded_total` the 429s, by tenant id and by the windows that rejected. -/
theorem counters_of_run (platform : Platform K) (config : Config K) (x : Shared K)
    (es : List (IngressEvent K)) (s : IngressState K)
    (hrun : Run.execAll (ingress platform config).step (.start x) es = some s) :
    (∀ nodeId status, s.shared.counters.requestsTotal nodeId status =
      x.counters.requestsTotal nodeId status + countOf es s (Point.completed nodeId status)) ∧
    (∀ reason, s.shared.counters.authFailuresTotal reason =
      x.counters.authFailuresTotal reason + countOf es s (Point.unauthorized reason)) ∧
    ∀ tenantId w, s.shared.counters.rateLimitExceededTotal tenantId (dimension w) =
      x.counters.rateLimitExceededTotal tenantId (dimension w) +
        countOf es s (Point.exceeded tenantId w) := by
  have letIn : ∀ {es s}, Run.execAll (ingress platform config).step (.start x) es = some s →
      ∀ (tid : Nat) p, s.task tid = some p → ∃ es tid, LetIn platform config es tid p :=
    fun hrun tid p hp => ⟨_, tid, letIn_run hrun hp⟩
  have ticked : ∀ {rate : K} {y z : Shared K},
      (ingress platform config).external rate y = some z → z.counters = y.counters := by
    intro rate y z h
    obtain rfl := Option.some.inj h
    rfl
  refine ⟨fun nodeId status => ?_, fun reason => ?_, fun tenantId w => ?_⟩
  · exact Program.count_run _ (fun y => y.counters.requestsTotal nodeId status) _ letIn
      (fun _ => rfl) (fun ⟨_, _, hp⟩ h => (counts_resume hp h).requests nodeId status)
      (fun h => by rw [ticked h]) hrun
  · exact Program.count_run _ (fun y => y.counters.authFailuresTotal reason) _ letIn
      (fun _ => rfl) (fun ⟨_, _, hp⟩ h => (counts_resume hp h).authFailures reason)
      (fun h => by rw [ticked h]) hrun
  · exact Program.count_run _ (fun y => y.counters.rateLimitExceededTotal tenantId (dimension w)) _
      letIn (fun _ => rfl) (fun ⟨_, _, hp⟩ h => (counts_resume hp h).exceeded tenantId w)
      (fun h => by rw [ticked h]) hrun

end Run

/-! ## One document -/

section Sample

attribute [local instance] unitExp

theorem counters_of_run_answeredRun :
    ∃ s, Run.execAll (ingress samplePlatform sampleConfig).step (.start sampleShared) answeredRun =
        some s ∧ s.shared.counters.requestsTotal "a" "success" = 1 := by
  have hcount : (Run.execAll (ingress samplePlatform sampleConfig).step (.start sampleShared)
      answeredRun).map (fun s => countOf answeredRun s (Point.completed "a" "success")) =
        some 1 := by decide +kernel
  obtain ⟨s, hs, hone⟩ := Option.map_eq_some_iff.mp hcount
  have hrequests := (counters_of_run samplePlatform sampleConfig sampleShared answeredRun s hs).1
  exact ⟨s, hs, by rw [hrequests, hone]; rfl⟩

end Sample

end StigmergicMesh.Server
