import StigmergicMesh.RateLimit.Answers
import StigmergicMesh.Server.Deposits

/-!
# Statuses and rate-limit headers

What a client is told with the answer to its request. A stream is begun before its worker is
sampled, so a client that streams has its headers even if no worker is found.
-/

namespace StigmergicMesh.Server

open Auth RateLimit Tasks

variable {K : Type*}

/-- The status of an answer and the headers that the handlers set. -/
structure Response where
  status : Nat
  headers : Dict String String

/-- The status of a refusal: `HTTPException`, the `JSONResponse` of a rejected request, or an
exception that no handler catches. -/
def Refusal.status : Refusal → Nat
  | .unauthorized _ => 401
  | .notReady => 503
  | .rateLimitExceeded => 429
  | .limiterRaised => 500

/-- The headers that a refusal carries. -/
def Refusal.headers (call : Option RateLimit.Point) : Refusal → Dict String String
  | .rateLimitExceeded => checkHeaders call
  | _ => Dict.empty

/-- How an answer is begun: a stream with its headers, a document with its result, and what raises
with an internal error. -/
def Point.response? : Point K → Option Response
  | .streaming a _ _ => some ⟨200, checkHeaders a.call⟩
  | .sending a _ _ _ => some ⟨200, checkHeaders a.call⟩
  | .refused _ call why => some ⟨why.status, why.headers call⟩
  | .unserved a _ =>
    some (if a.request.stream then ⟨200, checkHeaders a.call⟩ else ⟨500, Dict.empty⟩)
  | .served a _ answer =>
    match answer with
    | .depositRaised => some ⟨500, Dict.empty⟩
    | .usageRaised _ => some ⟨500, Dict.empty⟩
    | .aborted => some ⟨500, Dict.empty⟩
    | _ => some ⟨200, checkHeaders a.call⟩
  | _ => none

/-! ## Headers of a call -/

/-- The headers tell what a call has reported at `now`; a request that is rejected is told to come
back when the next bucket begins. -/
structure Told (tenant : RateLimit.Tenant) (now : ℤ) (rejected : Bool)
    (headers : Dict String String) : Prop where
  quota : ∃ limit remaining,
    headers.get? "X-RateLimit-Limit" = some (toString limit) ∧
      (limit = tenant.rpmLimit ∨ limit = tenant.tpmLimit) ∧
    headers.get? "X-RateLimit-Remaining" = some (toString remaining) ∧
      0 ≤ remaining ∧ remaining ≤ max 0 limit
  reset : headers.get? "X-RateLimit-Reset" = some (toString (secondsLeft now))
  retryAfter : headers.get? "Retry-After" =
    if rejected then some (toString (secondsLeft now)) else none

theorem told_of_reports {c : Check} {now : ℤ} {info : Info} (h : info.Reports c.tenant now) :
    Told c.tenant now (!info.allowed) (checkHeaders (some (.returned c info))) := by
  have hremaining : max 0 info.remaining ≤ max 0 info.limit :=
    max_le (le_max_left ..) h.remaining_le
  have hquota : ∀ headers : Dict String String,
      headers.get? "X-RateLimit-Limit" = some (toString info.limit) →
      headers.get? "X-RateLimit-Remaining" = some (toString (max 0 info.remaining)) →
      ∃ limit remaining, headers.get? "X-RateLimit-Limit" = some (toString limit) ∧
        (limit = c.tenant.rpmLimit ∨ limit = c.tenant.tpmLimit) ∧
        headers.get? "X-RateLimit-Remaining" = some (toString remaining) ∧
          0 ≤ remaining ∧ remaining ≤ max 0 limit := fun headers hl hr =>
    ⟨info.limit, max 0 info.remaining, hl, h.limit, hr, le_max_left .., hremaining⟩
  cases hallowed : info.allowed with
  | true =>
    simp only [checkHeaders, hallowed, if_true]
    exact ⟨hquota _ rfl rfl, h.reset ▸ rfl, rfl⟩
  | false =>
    simp only [checkHeaders, hallowed, Bool.false_eq_true, if_false]
    exact ⟨hquota _ rfl rfl, h.reset ▸ rfl, h.reset ▸ rfl⟩

/-! ## The requests of a run -/

/-- A request that was let in was allowed by its call if there is a limiter, and one that was
rejected was so by its call. -/
structure Ruled (config : Config K) (p : Point K) : Prop where
  limiting : ∀ r tenant call, p = .limiting r tenant call → config.rateLimiter = true
  admitted : ∀ a, p.admission? = some a →
    config.rateLimiter = false ∧ a.call = none ∨
      config.rateLimiter = true ∧ ∃ c info, a.call = some (.returned c info) ∧ info.allowed = true
  rejected : ∀ r call, p = .refused r call .rateLimitExceeded →
    config.rateLimiter = true ∧ ∃ c info, call = some (.returned c info) ∧ info.allowed = false

/-- The headers of a request that was let in. -/
theorem Ruled.headers {config : Config K} {p : Point K} (h : Ruled config p) {a : Admission K}
    (ha : p.admission? = some a) :
    config.rateLimiter = false ∧ checkHeaders a.call = Dict.empty ∨
      config.rateLimiter = true ∧ ∃ c info, a.call = some (.returned c info) ∧
        info.allowed = true := by
  obtain ⟨hnone, hcall⟩ | hsome := h.admitted a ha
  · exact Or.inl ⟨hnone, by rw [hcall]; rfl⟩
  · exact Or.inr hsome

section Run

variable [Field K] [LinearOrder K] [Transcendental K] {platform : Platform K} {config : Config K}

/-- A step of a request. -/
theorem ruled_resume {i : Input K} {x : Shared K} {p : Point K} {next : Shared K × Point K}
    (h : resume platform config i x p = some next) (hp : Ruled config p) :
    Ruled config next.2 := by
  have kept : ∀ {a : Admission K} {q : Point K}, p.admission? = some a → q.admission? = some a →
      (∀ r tenant call, q ≠ .limiting r tenant call) → (∀ r call why, q ≠ .refused r call why) →
      Ruled config q := by
    intro a q hpa hqa hlimiting hrefused
    refine ⟨fun r tenant call hq => (hlimiting r tenant call hq).elim, fun b hb => ?_,
      fun r call hq => (hrefused r call _ hq).elim⟩
    obtain rfl := Option.some.inj (hqa.symm.trans hb)
    exact hp.admitted a hpa
  have refused : ∀ (r : Request) (call : Option RateLimit.Point) {why : Refusal},
      why ≠ .rateLimitExceeded → Ruled config (.refused r call why) := by
    intro r call why hwhy
    refine ⟨fun _ _ _ hq => (by cases hq), fun _ ha => (by cases ha), fun r' call' hq => ?_⟩
    cases hq
    exact absurd rfl hwhy
  cases step_of_resume h with
  | ask =>
    exact ⟨fun _ _ _ hq => (by cases hq), fun _ ha => (by cases ha),
      fun _ _ hq => (by cases hq)⟩
  | unauthorized | notReady | noClient | limiterRaised => exact refused _ _ (by intro hw; cases hw)
  | call _ _ hlimiter =>
    exact ⟨fun _ _ _ _ => hlimiter, fun _ ha => (by cases ha), fun _ _ hq => (by cases hq)⟩
  | unlimited _ _ hlimiter =>
    refine ⟨fun _ _ _ hq => (by cases hq), fun a ha => ?_, fun _ _ hq => (by cases hq)⟩
    obtain rfl := Option.some.inj ha
    exact Or.inl ⟨hlimiter, rfl⟩
  | @evaluate r tenant call i l q hl =>
    exact ⟨fun _ _ _ _ => hp.limiting r tenant call rfl, fun _ ha => (by cases ha),
      fun _ _ hq => (by cases hq)⟩
  | @allow r tenant call i l c info hl hallowed =>
    refine ⟨fun _ _ _ hq => (by cases hq), fun a ha => ?_, fun _ _ hq => (by cases hq)⟩
    obtain rfl := Option.some.inj ha
    exact Or.inr ⟨hp.limiting r tenant call rfl, c, info, rfl, hallowed⟩
  | @deny r tenant call i l c info hl hallowed =>
    refine ⟨fun _ _ _ hq => (by cases hq), fun _ ha => (by cases ha), fun r' call' hq => ?_⟩
    cases hq
    exact ⟨hp.limiting r tenant call rfl, c, info, rfl, hallowed⟩
  | unserved | stream | dispatch | execute | depositRaised | answer | usageRaised | chunk | next |
      broken | close | finish | abort | cancel =>
    exact kept rfl rfl (fun _ _ _ hq => by cases hq) fun _ _ _ hq => by cases hq

theorem ruled_run {x : Shared K} {es : List (IngressEvent K)} {s : IngressState K}
    (hrun : Run.execAll (ingress platform config).step (.start x) es = some s) {tid : Nat}
    {p : Point K} (hp : s.task tid = some p) : Ruled config p := by
  have houtline : (ingress platform config).Outline (τ := Nat) x (fun _ _ => True)
      (fun _ _ => True) (fun _ _ _ p => Ruled config p) :=
    { start := trivial
      spawn := fun es s tid r _ _ _ => ⟨trivial, fun _ _ _ hq => (by cases hq),
        fun _ ha => (by cases ha), fun _ _ hq => (by cases hq)⟩
      resume := fun es s tid i p y q _ hann _ hp hx =>
        ⟨trivial, ruled_resume hx (hann.2 tid p hp)⟩
      external := fun _ _ _ _ _ _ _ _ => trivial
      stable := fun _ _ _ _ _ _ _ _ _ _ _ _ h => h }
  exact (houtline.run _ hrun fun _ _ _ _ _ _ => trivial).2 tid p hp

/-- What a call of the limiter in a run of the server reports. -/
theorem reported_call {x : Shared K} (hstore : QuotaStore.Nonneg x.limiter.store)
    {es : List (IngressEvent K)} {s : IngressState K}
    (hrun : Run.execAll (ingress platform config).step (.start x) es = some s) {tid : Nat}
    {p : Point K} (hp : s.task tid = some p) {c : Check} {info : Info}
    (hcall : p.call = some (.returned c info)) :
    ∃ now, nowOf (callsOf platform config x es) tid = some now ∧ info.Reports c.tenant now := by
  have hlimiter := (limiterProjection platform config).execAll_trace hrun
  have hcosts : ∀ e ∈ callsOf platform config x es, CostsNonneg e := by
    rintro (⟨tid', c'⟩ | _ | _) he
    · obtain ⟨r, tenant, rfl⟩ := exists_checkOf hrun he
      have htokens : 0 ≤ estimatePromptTokens r.prompt := Int.natCast_nonneg _
      have hmax := r.maxTokens_mem.1
      show 0 ≤ estimatePromptTokens r.prompt + r.maxTokens
      omega
    · trivial
    · trivial
  have htask : (limiterOf s).task tid = some (.returned c info) := by simp [limiterOf, hp, hcall]
  obtain ⟨now, rpm, tpm, hnow, rfl, hrpm, htpm⟩ := reported_run hstore hlimiter hcosts htask
  exact ⟨now, hnow, reports_buildInfo hrpm htpm⟩

end Run

/-- The call that a request goes by was made for it and for its tenant. -/
theorem exists_tenant_of_call [Field K] [LinearOrder K] [Transcendental K] {platform : Platform K}
    {config : Config K} {es : List (IngressEvent K)} {tid : Nat} {p : Point K}
    (hletIn : LetIn platform config es tid p) {c : Check} {info : Info}
    (hcall : p.call = some (.returned c info))
    (hp : (∃ a, p.admission? = some a ∧ config.rateLimiter = true) ∨
      ∃ r, p = .refused r (some (.returned c info)) .rateLimitExceeded) :
    ∃ tenant, Authentic platform config es tid p.request tenant ∧ c = checkOf p.request tenant := by
  obtain ⟨a, ha, hlimiter⟩ | ⟨r, rfl⟩ := hp
  · obtain ⟨hauthentic, hpassed⟩ := hletIn.admitted a ha
    obtain ⟨info', hcall', -⟩ := hpassed hlimiter
    have hsame : p.call = a.call := by cases p <;> cases ha <;> rfl
    rw [Point.request_of_admission ha]
    refine ⟨a.tenant, hauthentic, ?_⟩
    rw [hsame, hcall'] at hcall
    cases hcall
    rfl
  · exact hletIn.rejected r _ rfl

/-- What a request is told of the call that it goes by. -/
theorem told_run [Field K] [LinearOrder K] [Transcendental K] {platform : Platform K}
    {config : Config K} {x : Shared K} (hstore : QuotaStore.Nonneg x.limiter.store)
    {es : List (IngressEvent K)} {s : IngressState K}
    (hrun : Run.execAll (ingress platform config).step (.start x) es = some s) {tid : Nat}
    {p : Point K} (hp : s.task tid = some p) {c : Check} {info : Info}
    (hcall : p.call = some (.returned c info))
    (hruled : (∃ a, p.admission? = some a ∧ config.rateLimiter = true) ∨
      ∃ r, p = .refused r (some (.returned c info)) .rateLimitExceeded) :
    ∃ tenant now, Authentic platform config es tid p.request tenant ∧
      p.call = some (.returned (checkOf p.request tenant) info) ∧
      nowOf (callsOf platform config x es) tid = some now ∧
      Told (checkOf p.request tenant).tenant now (!info.allowed)
        (checkHeaders (some (.returned c info))) := by
  obtain ⟨tenant, hauthentic, rfl⟩ := exists_tenant_of_call (letIn_run hrun hp) hcall hruled
  obtain ⟨now, hnow, hreports⟩ := reported_call hstore hrun hp hcall
  exact ⟨tenant, now, hauthentic, hcall, hnow, told_of_reports hreports⟩

/-- In every run of the server over quotas that are not negative: a rejected request, and with the
limiter one that is served, is told the quota of the tenant as which it was authenticated, from the
bucket at the time that its call has read, and exactly the rejected one is told to come back when
the next bucket begins. All other answers come without headers. -/
theorem responses_of_run [Field K] [LinearOrder K] [Transcendental K] (platform : Platform K)
    (config : Config K) (x : Shared K) (hstore : QuotaStore.Nonneg x.limiter.store)
    (es : List (IngressEvent K)) (s : IngressState K)
    (hrun : Run.execAll (ingress platform config).step (.start x) es = some s) (tid : Nat)
    (p : Point K) (hp : s.task tid = some p) (response : Response)
    (hresponse : p.response? = some response) :
    if response.status = 429 ∨ response.status = 200 ∧ config.rateLimiter = true then
      ∃ tenant info now, Authentic platform config es tid p.request tenant ∧
        p.call = some (.returned (checkOf p.request tenant) info) ∧
        nowOf (callsOf platform config x es) tid = some now ∧
        Told (checkOf p.request tenant).tenant now (response.status = 429) response.headers
    else response.headers = Dict.empty := by
  have hruled : Ruled config p := ruled_run hrun hp
  have admitted : ∀ a : Admission K, p.admission? = some a → p.call = a.call →
      response = ⟨200, checkHeaders a.call⟩ →
      if response.status = 429 ∨ response.status = 200 ∧ config.rateLimiter = true then
        ∃ tenant info now, Authentic platform config es tid p.request tenant ∧
          p.call = some (.returned (checkOf p.request tenant) info) ∧
          nowOf (callsOf platform config x es) tid = some now ∧
          Told (checkOf p.request tenant).tenant now (response.status = 429) response.headers
      else response.headers = Dict.empty := by
    rintro a ha hcall rfl
    obtain ⟨hnone, hempty⟩ | ⟨hlimiter, c, info, hreturned, hallowed⟩ := hruled.headers ha
    · simpa [hnone] using hempty
    · obtain ⟨tenant, now, hauthentic, hpcall, hnow, htold⟩ :=
        told_run hstore hrun hp (hcall.trans hreturned) (Or.inl ⟨a, ha, hlimiter⟩)
      rw [hallowed, ← hreturned] at htold
      simp only [hlimiter, and_true, or_true, if_true]
      exact ⟨tenant, info, now, hauthentic, hpcall, hnow, htold⟩
  cases p with
  | received | resolving | limiting | admitted | executing | executed => cases hresponse
  | streaming a | sending a => exact admitted a rfl rfl (Option.some.inj hresponse).symm
  | unserved a e =>
    have hresponse := Option.some.inj hresponse
    split_ifs at hresponse
    · exact admitted a rfl rfl hresponse.symm
    · subst hresponse
      rfl
  | served a worker answer =>
    cases answer with
    | depositRaised | usageRaised | aborted =>
      obtain rfl := Option.some.inj hresponse
      rfl
    | json | streamed | broken | disconnected | cancelled =>
      exact admitted a rfl rfl (Option.some.inj hresponse).symm
  | refused r call why =>
    obtain rfl := Option.some.inj hresponse
    cases why with
    | unauthorized | notReady | limiterRaised => rfl
    | rateLimitExceeded =>
      obtain ⟨-, c, info, rfl, hrejected⟩ := hruled.rejected r call rfl
      obtain ⟨tenant, now, hauthentic, hpcall, hnow, htold⟩ :=
        told_run hstore hrun hp rfl (Or.inr ⟨r, rfl⟩)
      rw [hrejected] at htold
      exact ⟨tenant, info, now, hauthentic, hpcall, hnow, htold⟩

section Sample

attribute [local instance] unitExp

theorem responses_of_run_answeredRun :
    ∃ s p response tenant now,
      Run.execAll (ingress samplePlatform sampleConfig).step (.start sampleShared) answeredRun =
        some s ∧ s.task 0 = some p ∧ p.response? = some response ∧
      Authentic samplePlatform sampleConfig answeredRun 0 p.request tenant ∧
      Told (checkOf p.request tenant).tenant now (response.status = 429) response.headers := by
  have hanswered : (((Run.execAll (ingress samplePlatform sampleConfig).step (.start sampleShared)
      answeredRun).bind (·.task 0)).bind Point.response?).any (·.status = 200) = true := by
    decide +kernel
  obtain ⟨response, hresponse, hstatus⟩ := (Option.any_eq_true ..).mp hanswered
  obtain ⟨p, hp, hresponse⟩ := Option.bind_eq_some_iff.mp hresponse
  obtain ⟨s, hs, hp⟩ := Option.bind_eq_some_iff.mp hp
  have hheaders := responses_of_run samplePlatform sampleConfig sampleShared
    (fun _ _ => le_rfl) answeredRun s hs 0 p hp response hresponse
  rw [if_pos (Or.inr ⟨of_decide_eq_true hstatus, rfl⟩)] at hheaders
  obtain ⟨tenant, -, now, hauthentic, -, -, htold⟩ := hheaders
  exact ⟨s, p, response, tenant, now, hs, hp, hresponse, hauthentic, htold⟩

end Sample

end StigmergicMesh.Server
