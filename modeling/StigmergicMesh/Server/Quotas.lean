import StigmergicMesh.Library.Projection
import StigmergicMesh.RateLimit.Interleaved
import StigmergicMesh.Server.Ingress

/-!
# Quotas end to end

The server runs the limiter as a component: a request that reaches it is a call of the limiter,
and goes on if the call allows it. So what is known of the limiter's runs holds of the requests that
reach a worker.
-/

namespace StigmergicMesh.Server

open Auth RateLimit Tasks

variable {K : Type*}

namespace Point

/-- The call of the limiter that a request has made, where it stands. -/
def call : Point K → Option RateLimit.Point
  | .received _ => none
  | .resolving _ => none
  | .limiting _ _ call => some call
  | .admitted a => a.call
  | .executing a _ => a.call
  | .executed a _ _ _ => a.call
  | .streaming a _ _ => a.call
  | .sending a _ _ _ => a.call
  | .refused _ call _ => call
  | .unserved a _ => a.call
  | .served a _ _ => a.call

/-- The admission of a request that has been let in. -/
def admission? : Point K → Option (Admission K)
  | .admitted a => some a
  | .executing a _ => some a
  | .executed a _ _ _ => some a
  | .streaming a _ _ => some a
  | .sending a _ _ _ => some a
  | .unserved a _ => some a
  | .served a _ _ => some a
  | _ => none

/-- The worker that a request was given. -/
def worker? : Point K → Option Worker
  | .executing _ worker => some worker
  | .executed _ worker _ _ => some worker
  | .streaming _ worker _ => some worker
  | .sending _ worker _ _ => some worker
  | .served _ worker _ => some worker
  | _ => none

/-- The request that stands here. -/
def request : Point K → Request
  | .received r => r
  | .resolving r => r
  | .limiting r _ _ => r
  | .admitted a => a.request
  | .executing a _ => a.request
  | .executed a _ _ _ => a.request
  | .streaming a _ _ => a.request
  | .sending a _ _ _ => a.request
  | .refused r _ _ => r
  | .unserved a _ => a.request
  | .served a _ _ => a.request

theorem request_of_admission {p : Point K} {a : Admission K} (h : p.admission? = some a) :
    p.request = a.request := by
  cases p <;> cases h <;> rfl

/-- The call of the limiter that is about to start. -/
def starts : Point K → Option Check
  | .limiting _ _ (.start c) => some c
  | _ => none

end Point

variable [Field K] [LinearOrder K] [Transcendental K] (platform : Platform K) (config : Config K)

/-! ## The limiter inside -/

/-- The limiter's state in a state of the server. -/
def limiterOf (s : IngressState K) : LimiterState :=
  ⟨s.shared.limiter, fun tid => (s.task tid).bind Point.call⟩

/-- What a step of the server is for the limiter: the start of a call, or a step of one. -/
def limiterEvent (s : IngressState K) : IngressEvent K → Option LimiterEvent
  | .resume tid (.limiter i) => some (.resume tid i)
  | .resume tid i =>
    ((s.task tid).bind (resume platform config i s.shared)).bind fun next =>
      next.2.starts.map (.spawn tid)
  | _ => none

omit [Field K] [LinearOrder K] [Transcendental K] in
theorem limiterOf_move (s : IngressState K) (tid : Nat) (x : Shared K) {p : Point K}
    {call : RateLimit.Point} (h : p.call = some call) :
    limiterOf (s.move tid x p) = (limiterOf s).move tid x.limiter call := by
  simp only [limiterOf, State.move, State.mk.injEq, true_and]
  funext tid'
  by_cases hne : tid' = tid
  · subst hne
    simp [h]
  · simp [hne]

omit [Field K] [LinearOrder K] [Transcendental K] in
/-- A step that leaves the limiter and the request's call of it as they are. -/
theorem limiterOf_move_eq (s : IngressState K) {tid : Nat} {x : Shared K} {p : Point K}
    (hx : x.limiter = s.shared.limiter) (h : p.call = (s.task tid).bind Point.call) :
    limiterOf (s.move tid x p) = limiterOf s := by
  simp only [limiterOf, State.move, hx, State.mk.injEq, true_and]
  funext tid'
  by_cases hne : tid' = tid
  · subst hne
    simp [h]
  · simp [hne]

/-! ## What a step does to the call of the limiter -/

omit [Field K] [LinearOrder K] [Transcendental K] in
/-- A request that is authenticating has not called the limiter. -/
theorem Authenticating.call_eq_none {i : Input K} {p : Point K} {r : Request}
    {reply : Option (Except String (Dict Bytes Bytes))}
    (h : Authenticating platform config i p r reply) : p.call = none ∧ ∀ j, i ≠ .limiter j := by
  cases h with
  | unasked => exact ⟨rfl, nofun⟩
  | replied => exact ⟨rfl, nofun⟩

/-- A step is one of the call, or it starts a call, or it leaves the limiter and the call as they
are. -/
theorem resume_call {i : Input K} {x : Shared K} {p : Point K} {next : Shared K × Point K}
    (h : resume platform config i x p = some next) :
    (∃ j call q, i = .limiter j ∧ p.call = some call ∧
      RateLimit.resume j x.limiter call = some (next.1.limiter, q) ∧ next.2.call = some q) ∨
    (∀ j, i ≠ .limiter j) ∧ next.1.limiter = x.limiter ∧
      (next.2.call = p.call ∧ next.2.starts = none ∨
        p.call = none ∧ ∃ r tenant, next.2 = .limiting r tenant (.start (checkOf r tenant))) := by
  cases step_of_resume h with
  | unauthorized ha | notReady ha | noClient ha | unlimited ha =>
    obtain ⟨hp, hi⟩ := ha.call_eq_none
    exact Or.inr ⟨hi, rfl, Or.inl ⟨hp.symm, rfl⟩⟩
  | @call i p r reply tenant ha =>
    obtain ⟨hp, hi⟩ := ha.call_eq_none
    exact Or.inr ⟨hi, rfl, Or.inr ⟨hp, r, tenant, rfl⟩⟩
  | evaluate hl | allow hl | deny hl | limiterRaised hl =>
    exact Or.inl ⟨_, _, _, rfl, rfl, hl, rfl⟩
  | ask | unserved | stream | dispatch | execute | depositRaised | answer | usageRaised | chunk |
      next | broken | close | finish | abort | cancel =>
    exact Or.inr ⟨nofun, rfl, Or.inl ⟨rfl, rfl⟩⟩

variable {platform config}

theorem limiterEvent_of_resume {s : IngressState K} {tid : Nat} {i : Input K} {p q : Point K}
    {x : Shared K} (hp : s.task tid = some p)
    (hx : resume platform config i s.shared p = some (x, q)) (hi : ∀ j, i ≠ .limiter j) :
    limiterEvent platform config s (.resume tid i) = q.starts.map (.spawn tid) := by
  have hnext : (s.task tid).bind (resume platform config i s.shared) = some (x, q) := by
    rw [hp, Option.bind_some, hx]
  cases i <;> first | exact absurd rfl (hi _) | simp only [limiterEvent, hnext, Option.bind_some]

theorem limiterOf_step {s t : IngressState K} {e : IngressEvent K}
    (h : (ingress platform config).step s e = some t) :
    match limiterEvent platform config s e with
    | some e' => limiter.step (limiterOf s) e' = some (limiterOf t)
    | none => limiterOf t = limiterOf s := by
  obtain ⟨tid, r, rfl, hs, rfl⟩ | ⟨tid, i, p, x, q, rfl, hp, hx, rfl⟩ |
    ⟨rate, x, rfl, hx, rfl⟩ := (ingress platform config).step_cases h
  · exact limiterOf_move_eq s rfl (by rw [hs]; rfl)
  · have hview : (limiterOf s).task tid = p.call := by simp [limiterOf, hp]
    obtain ⟨j, call, q', rfl, hcall, hl, hq⟩ | ⟨hi, hlimiter, ⟨hcall, hstarts⟩ |
      ⟨hcall, r, tenant, rfl⟩⟩ := resume_call platform config hx
    · have hstep : limiter.step (limiterOf s) (.resume tid j) =
          some ((limiterOf s).move tid x.limiter q') := by
        have hj : limiter.resume j (limiterOf s).shared call = some (x.limiter, q') := hl
        simp only [Program.step, hview, hcall, hj, Option.map_some]
      rw [← limiterOf_move s tid x hq] at hstep
      exact hstep
    · rw [limiterEvent_of_resume hp hx hi, hstarts]
      exact limiterOf_move_eq s hlimiter (by rw [hcall, hp]; rfl)
    · rw [limiterEvent_of_resume hp hx hi]
      have hstep : limiter.step (limiterOf s) (.spawn tid (checkOf r tenant)) =
          some ((limiterOf s).move tid s.shared.limiter (.start (checkOf r tenant))) := by
        simp only [Program.step, hview, hcall]
        rfl
      rw [← hlimiter, ← limiterOf_move s tid x (p := .limiting r tenant _) rfl] at hstep
      exact hstep
  · obtain rfl := Option.some.inj hx
    rfl

variable (platform config)

/-- The limiter as a component of the server. -/
def limiterProjection :
    @Run.Projection (IngressState K) (IngressEvent K) LimiterState LimiterEvent
      (ingress platform config).step limiter.step where
  view := limiterOf
  label := limiterEvent platform config
  visible h hlabel := by
    have hstep := limiterOf_step h
    rwa [hlabel] at hstep
  hidden h hlabel := by
    have hstep := limiterOf_step h
    rwa [hlabel] at hstep

/-- The run of the limiter in a run of the server. -/
def callsOf (x : Shared K) (es : List (IngressEvent K)) : List LimiterEvent :=
  (limiterProjection platform config).trace (.start x) es

/-! ## What a request needs to be let in -/

/-- What a request has learned of its key: nothing if Redis is not asked, and else the reply that it
was given. -/
def Replied (es : List (IngressEvent K)) (tid : Nat) (r : Request) :
    Option (Except String (Dict Bytes Bytes)) → Prop
  | none => asksRedis platform config r = false
  | some reply => asksRedis platform config r = true ∧ .resume tid (.hgetall reply) ∈ es

/-- The request came in under this name and was authenticated as the tenant by what it learned. -/
structure Authentic (es : List (IngressEvent K)) (tid : Nat) (r : Request)
    (tenant : TenantContext K) : Prop where
  spawned : .spawn tid r ∈ es
  replied : ∃ reply, Replied platform config es tid r reply ∧
    tenantOf platform config reply r = .ok tenant

/-- The call of the limiter was made for the request, and passed both windows. -/
def Passed (a : Admission K) : Prop :=
  config.rateLimiter = true → ∃ info, a.call = some (.returned (checkOf a.request a.tenant) info) ∧
    info.rpm.allowed = true ∧ info.tpm.allowed = true

/-- A call of the limiter is made for its request and its tenant, and a request that has been let in
has passed. -/
structure LetIn (es : List (IngressEvent K)) (tid : Nat) (p : Point K) : Prop where
  spawned : .spawn tid p.request ∈ es
  resolving : ∀ r, p = .resolving r → asksRedis platform config r = true
  limiting : ∀ r tenant call, p = .limiting r tenant call →
    Authentic platform config es tid r tenant ∧ call.check = checkOf r tenant
  rejected : ∀ r call, p = .refused r (some call) .rateLimitExceeded →
    ∃ tenant, Authentic platform config es tid r tenant ∧ call.check = checkOf r tenant
  admitted : ∀ a, p.admission? = some a →
    Authentic platform config es tid a.request a.tenant ∧ Passed config a

variable {platform config}

/-- A step is one of its request. -/
theorem request_resume {i : Input K} {x : Shared K} {p : Point K} {next : Shared K × Point K}
    (h : resume platform config i x p = some next) : next.2.request = p.request := by
  cases step_of_resume h with
  | unauthorized ha | notReady ha | noClient ha | call ha | unlimited ha => cases ha <;> rfl
  | ask | evaluate | allow | deny | limiterRaised | unserved | stream | dispatch | execute |
      depositRaised | answer | usageRaised | chunk | next | broken | close | finish | abort |
      cancel => rfl

/-- A request that has been let in keeps its admission. -/
theorem admission_resume {i : Input K} {x : Shared K} {p : Point K} {next : Shared K × Point K}
    (h : resume platform config i x p = some next) {a : Admission K}
    (hp : p.admission? = some a) : next.2.admission? = some a := by
  cases step_of_resume h with
  | unauthorized ha | notReady ha | noClient ha | call ha | unlimited ha => cases ha <;> cases hp
  | ask | evaluate | allow | deny | limiterRaised => cases hp
  | unserved | stream | dispatch | execute | depositRaised | answer | usageRaised | chunk | next |
      broken | close | finish | abort | cancel => exact hp

section LetIn

variable {es : List (IngressEvent K)} {tid : Nat}

omit [LinearOrder K] [Transcendental K] in
theorem Authentic.snoc {r : Request} {tenant : TenantContext K}
    (h : Authentic platform config es tid r tenant) (e : IngressEvent K) :
    Authentic platform config (es ++ [e]) tid r tenant := by
  obtain ⟨hspawned, reply, hreplied, htenant⟩ := h
  refine ⟨List.mem_append_left _ hspawned, reply, ?_, htenant⟩
  cases reply with
  | none => exact hreplied
  | some reply => exact hreplied.imp_right (List.mem_append_left _)

omit [LinearOrder K] [Transcendental K] in
theorem LetIn.snoc {p : Point K} (h : LetIn platform config es tid p) (e : IngressEvent K) :
    LetIn platform config (es ++ [e]) tid p where
  spawned := List.mem_append_left _ h.spawned
  resolving := h.resolving
  limiting r tenant call hp := (h.limiting r tenant call hp).imp_left (·.snoc e)
  rejected r call hp := by
    obtain ⟨tenant, hauthentic, hcheck⟩ := h.rejected r call hp
    exact ⟨tenant, hauthentic.snoc e, hcheck⟩
  admitted a ha := (h.admitted a ha).imp_left (·.snoc e)

omit [LinearOrder K] [Transcendental K] in
theorem LetIn.of_limiting {r : Request} {tenant : TenantContext K} {call : RateLimit.Point}
    (hauthentic : Authentic platform config es tid r tenant) (h : call.check = checkOf r tenant) :
    LetIn platform config es tid (.limiting r tenant call) where
  spawned := hauthentic.spawned
  resolving r' hp := by cases hp
  limiting r' tenant' call' hp := by
    obtain ⟨rfl, rfl, rfl⟩ := Point.limiting.inj hp
    exact ⟨hauthentic, h⟩
  rejected r' call' hp := by cases hp
  admitted a ha := by cases ha

omit [LinearOrder K] [Transcendental K] in
theorem LetIn.of_admission {p : Point K} {a : Admission K} (h : p.admission? = some a)
    (hauthentic : Authentic platform config es tid a.request a.tenant) (hpassed : Passed config a) :
    LetIn platform config es tid p where
  spawned := Point.request_of_admission h ▸ hauthentic.spawned
  resolving r hp := by
    rw [hp] at h
    cases h
  limiting r tenant call hp := by
    rw [hp] at h
    cases h
  rejected r call hp := by
    rw [hp] at h
    cases h
  admitted b hb := by
    obtain rfl := Option.some.inj (h.symm.trans hb)
    exact ⟨hauthentic, hpassed⟩

omit [LinearOrder K] [Transcendental K] in
theorem LetIn.of_refused {r : Request} (hspawned : .spawn tid r ∈ es)
    {call : Option RateLimit.Point} {why : Refusal} (hwhy : why ≠ .rateLimitExceeded) :
    LetIn platform config es tid (.refused r call why : Point K) where
  spawned := hspawned
  resolving r' hp := by cases hp
  limiting r' tenant call' hp := by cases hp
  rejected r' call' hp := by
    cases hp
    exact (hwhy rfl).elim
  admitted a ha := by cases ha

omit [LinearOrder K] [Transcendental K] in
theorem LetIn.of_rejected {r : Request} {tenant : TenantContext K} {call : RateLimit.Point}
    (hauthentic : Authentic platform config es tid r tenant) (h : call.check = checkOf r tenant) :
    LetIn platform config es tid (.refused r (some call) .rateLimitExceeded : Point K) where
  spawned := hauthentic.spawned
  resolving r' hp := by cases hp
  limiting r' tenant' call' hp := by cases hp
  rejected r' call' hp := by
    cases hp
    exact ⟨tenant, hauthentic, h⟩
  admitted a ha := by cases ha

omit [LinearOrder K] [Transcendental K] in
/-- A request that is let through by its key. -/
theorem LetIn.authentic {i : Input K} {p : Point K} {r : Request}
    {reply : Option (Except String (Dict Bytes Bytes))}
    (h : LetIn platform config es tid p) (ha : Authenticating platform config i p r reply)
    {tenant : TenantContext K} (htenant : tenantOf platform config reply r = .ok tenant) :
    Authentic platform config (es ++ [.resume tid i]) tid r tenant := by
  cases ha with
  | unasked hasks => exact ⟨List.mem_append_left _ h.spawned, none, hasks, htenant⟩
  | @replied r reply =>
    exact ⟨List.mem_append_left _ h.spawned, some reply, ⟨h.resolving r rfl, by simp⟩, htenant⟩

/-- What the limiter allows has passed both windows. -/
theorem letIn_resume {i : Input K} {x : Shared K} {p : Point K} {next : Shared K × Point K}
    (h : resume platform config i x p = some next) (hp : LetIn platform config es tid p) :
    LetIn platform config (es ++ [.resume tid i]) tid next.2 := by
  have hspawned : .spawn tid next.2.request ∈ es ++ [.resume tid i] :=
    List.mem_append_left _ (request_resume h ▸ hp.spawned)
  have kept : ∀ a, p.admission? = some a →
      LetIn platform config (es ++ [.resume tid i]) tid next.2 := fun a ha =>
    .of_admission (admission_resume h ha) ((hp.admitted a ha).1.snoc _) (hp.admitted a ha).2
  cases step_of_resume h with
  | ask hask =>
    refine ⟨hspawned, ?_, fun _ _ _ hq => (by cases hq), fun _ _ hq => (by cases hq),
      fun _ ha => (by cases ha)⟩
    intro r' hq
    cases hq
    exact hask
  | unauthorized | notReady | noClient => exact .of_refused hspawned (by intro hw; cases hw)
  | call ha htenant => exact .of_limiting (hp.authentic ha htenant) rfl
  | unlimited ha htenant hlimiter =>
    exact .of_admission rfl (hp.authentic ha htenant) fun h => by simp [hlimiter] at h
  | @evaluate r tenant call i l q hl =>
    obtain ⟨hauthentic, hcheck⟩ := hp.limiting r tenant call rfl
    exact .of_limiting (hauthentic.snoc _) ((resume_check hl).trans hcheck)
  | @allow r tenant call i l c info hl hallowed =>
    obtain ⟨hauthentic, hcheck⟩ := hp.limiting r tenant call rfl
    obtain rfl : c = checkOf r tenant := (resume_check hl).trans hcheck
    obtain ⟨rpm, tpm, rfl⟩ := exists_buildInfo hl
    refine .of_admission rfl (hauthentic.snoc _) fun _ => ⟨_, rfl, ?_⟩
    simpa [buildInfo] using hallowed
  | @deny r tenant call i l c info hl =>
    obtain ⟨hauthentic, hcheck⟩ := hp.limiting r tenant call rfl
    exact .of_rejected (hauthentic.snoc _) ((resume_check hl).trans hcheck)
  | limiterRaised => exact .of_refused hspawned (by intro hw; cases hw)
  | unserved | stream | dispatch => exact kept _ rfl
  | execute | depositRaised | answer | usageRaised | chunk | next | broken | close | finish |
      abort | cancel => exact kept _ rfl

end LetIn

theorem letIn_run {x : Shared K} {es : List (IngressEvent K)} {s : IngressState K}
    (hrun : Run.execAll (ingress platform config).step (.start x) es = some s) {tid : Nat}
    {p : Point K} (hp : s.task tid = some p) : LetIn platform config es tid p := by
  have houtline : (ingress platform config).Outline (τ := Nat) x (fun _ _ => True)
      (fun _ _ => True) (fun es tid _ p => LetIn platform config es tid p) :=
    { start := trivial
      spawn := fun es s tid r _ _ _ =>
        ⟨trivial, by simp [ingress, Point.request], fun r hq => (by cases hq),
          fun r tenant call hq => (by cases hq), fun r call hq => (by cases hq),
          fun a ha => (by cases ha)⟩
      resume := fun es s tid i p y q _ hann _ hp hx =>
        ⟨trivial, letIn_resume hx (hann.2 tid p hp)⟩
      external := fun _ _ _ _ _ _ _ _ => trivial
      stable := fun _ _ e _ _ _ _ _ _ _ _ _ h => h.snoc e }
  exact (houtline.run _ hrun fun _ _ _ _ _ _ => trivial).2 tid p hp

/-- The calls of the limiter are those of requests. -/
theorem exists_checkOf {x : Shared K} {es : List (IngressEvent K)} {s : IngressState K}
    (hrun : Run.execAll (ingress platform config).step (.start x) es = some s) {tid : Nat}
    {c : Check} (h : .spawn tid c ∈ callsOf platform config x es) :
    ∃ r, ∃ tenant : TenantContext K, c = checkOf r tenant := by
  obtain ⟨pre, e, post, u, v, -, -, hstep, hlabel⟩ :=
    (limiterProjection platform config).exists_of_mem_trace hrun h
  obtain ⟨tid, r, rfl, -, -⟩ | ⟨tid, i, p, y, q, rfl, hp, hx, -⟩ | ⟨rate, y, rfl, -, -⟩ :=
    (ingress platform config).step_cases hstep
  · cases hlabel
  · obtain ⟨j, call, q', rfl, -⟩ | ⟨hi, -, ⟨-, hstarts⟩ | ⟨-, r, tenant, rfl⟩⟩ :=
      resume_call platform config hx
    · cases hlabel
    · rw [show (limiterProjection platform config).label = limiterEvent platform config from rfl,
        limiterEvent_of_resume hp hx hi, hstarts] at hlabel
      cases hlabel
    · rw [show (limiterProjection platform config).label = limiterEvent platform config from rfl,
        limiterEvent_of_resume hp hx hi] at hlabel
      cases hlabel
      exact ⟨r, tenant, rfl⟩
  · cases hlabel

/-! ## Requests that reach a worker -/

/-- What a request of the tenant is charged in the windows of the limiter. -/
def Request.cost (r : Request) : Int := estimatePromptTokens r.prompt + r.maxTokens

/-- The tokens a request was charged for. -/
def tokensOf (s : IngressState K) (tid : Nat) : Int :=
  ((s.task tid).bind Point.admission?).elim 0 fun a => a.request.cost

section Reached

variable {x : Shared K} {es : List (IngressEvent K)} {s : IngressState K}
  (hrun : Run.execAll (ingress platform config).step (.start x) es = some s)

include hrun

end Reached

section Sample

/-- The exponential at zero, which is the only point that a router with one worker asks for. -/
local instance unitExp : Transcendental ℚ := ⟨fun _ => 1, fun x _ => x⟩

def sampleRequest : Request :=
  ⟨some "bearer key", .completions "Hello", 16, false, by decide⟩

def samplePlatform : Platform ℚ := ⟨asciiReaders, fun _ => "5e88", id, fun _ => ""⟩

/-- Security is on, and one tenant with an RPM limit of one has a key. -/
def sampleConfig : Config ℚ where
  router := some (.new ⟨[("a", ⟨"a", ["cpu"]⟩)], by decide⟩ none none none)
  secretKeysMap := some (Dict.empty.set "5e88" ⟨"acme", "pro", 1, 100, 1⟩)
  rateLimiter := true
  policyEngine := true
  redis := true

def sampleShared : Shared ℚ where
  limiter := ⟨fun _ => Quota.empty, false⟩
  field := ⟨["a"], Dict.enumerate ["a"], [Row.defaultState], 0.1, ⟨true, true⟩⟩
  counters := .zero

/-- A request up to its worker; Redis does not know its key. -/
def sampleRun : List (IngressEvent ℚ) :=
  [.spawn 0 sampleRequest, .resume 0 .begin, .resume 0 (.hgetall (.ok Dict.empty)),
    .resume 0 (.limiter (.now 120)), .resume 0 (.limiter .scriptLoad),
    .resume 0 (.limiter (.execute .replied 121)), .resume 0 (.limiter .scriptLoad),
    .resume 0 (.limiter (.execute .replied 121)), .resume 0 (.sample 0)]

end Sample

end StigmergicMesh.Server
