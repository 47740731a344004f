import StigmergicMesh.Server.Quotas

/-!
# What requests deposit

The field is a component of the server too. A request has an account: what its stream has deposited,
or the deposit of the result that its document is made of. A step writes to the field what it adds
to the account of its request. So the field is the old one after all that the accounts hold, in the
order of the steps and with the evaporations between them.
-/

namespace StigmergicMesh.Server

open Auth Tasks

variable {K : Type*}

/-! ## Accounts -/

/-- A step writes deposits of a request to the field, or it is an evaporation. -/
inductive Write (K : Type*) where
  | deposits (tid : Nat) (ds : List (String × Trace K))
  | evaporation (decayRate : K)

def depositOp (d : String × Trace K) : InMemoryField.Op K := .depositTrace d.1 d.2

namespace Write

def ops : Write K → List (InMemoryField.Op K)
  | .deposits _ ds => ds.map depositOp
  | .evaporation decayRate => [.applyEvaporation decayRate]

/-- The deposits that are a request's own. -/
def depositsOf (tid : Nat) : Write K → List (String × Trace K)
  | .deposits tid' ds => if tid' = tid then ds else []
  | .evaporation _ => []

end Write

section Definitions

variable [Field K] [LinearOrder K] (platform : Platform K) (config : Config K)

/-- The account of a request, where it stands. -/
def Point.deposits : Point K → List (String × Trace K)
  | .streaming _ _ p => p.deposits
  | .sending _ _ p _ => p.deposits
  | .served a worker (.json result _) =>
    [(result.nodeId, Router.traceOf worker (capContext platform a.request) result)]
  | .served a worker (.usageRaised result) =>
    [(result.nodeId, Router.traceOf worker (capContext platform a.request) result)]
  | .served _ _ (.streamed p) => p.deposits
  | .served _ _ (.broken p) => p.deposits
  | .served _ _ (.disconnected p) => p.deposits
  | .served _ _ (.cancelled p) => p.deposits
  | _ => []

/-- What a request has in its account. -/
def accountOf (s : IngressState K) (tid : Nat) : List (String × Trace K) :=
  (s.task tid).elim [] (Point.deposits platform)

variable [Transcendental K]

/-- What a step adds to the account of its request. -/
def added (s : IngressState K) (tid : Nat) (i : Input K) : Option (List (String × Trace K)) :=
  (s.task tid).bind fun p => (resume platform config i s.shared p).map fun next =>
    (next.2.deposits platform).drop (p.deposits platform).length

/-- What a step writes to the field. -/
def writeOf (s : IngressState K) : IngressEvent K → Option (Write K)
  | .spawn _ _ => none
  | .resume tid i => (added platform config s tid i).map (.deposits tid)
  | .external decayRate => some (.evaporation decayRate)

end Definitions

variable [Field K] [LinearOrder K]

/-! ## One step -/

/-- A deposit that a step from this point can make. -/
def Point.Observes (platform : Platform K) (d : String × Trace K) : Point K → Prop
  | .executed a worker result _ =>
    d = (result.nodeId, Router.traceOf worker (capContext platform a.request) result)
  | .sending _ worker _ c => ∃ success, d = (worker.nodeId, c.trace 0.5 success)
  | _ => False

/-- A stretch of a generator: what it adds to its account it has written to the field. -/
def Deposited (P : String × Trace K → Prop) (p q : Streaming.Progress K) : Prop :=
  ∃ ds, q.deposits = p.deposits ++ ds ∧ q.field = p.field.run (ds.map depositOp) ∧ ∀ d ∈ ds, P d

theorem Deposited.refl (P : String × Trace K → Prop) (p : Streaming.Progress K) : Deposited P p p :=
  ⟨[], (List.append_nil _).symm, rfl, by simp⟩

theorem Deposited.trans {P : String × Trace K → Prop} {p q r : Streaming.Progress K}
    (hpq : Deposited P p q) (hqr : Deposited P q r) : Deposited P p r := by
  obtain ⟨ds, hds, hfield, hP⟩ := hpq
  obtain ⟨ds', hds', hfield', hP'⟩ := hqr
  refine ⟨ds ++ ds', ?_, ?_, ?_⟩
  · rw [hds', hds, List.append_assoc]
  · rw [hfield', hfield, List.map_append, InMemoryField.run_append]
  · exact fun d hd => (List.mem_append.mp hd).elim (hP d) (hP' d)

/-- A deposit that raises leaves the field as it is. -/
theorem depositTrace_of_error {f g : InMemoryField K} {nodeId : String} {t : Trace K}
    {e : FieldError} (h : f.depositTrace nodeId t = (.error e, g)) : g = f := by
  unfold InMemoryField.depositTrace InMemoryField.updateRow at h
  split at h
  · exact (Prod.mk.inj h).2.symm
  · split at h
    · exact (Prod.mk.inj h).2.symm
    · cases h

theorem deposited_deposit {P : String × Trace K → Prop} (p : Streaming.Progress K)
    (nodeId : String) {t : Trace K} (ht : P (nodeId, t)) :
    Deposited P p (p.deposit nodeId t).2 := by
  unfold Streaming.Progress.deposit
  split
  · rename_i e field h
    exact ⟨[], (List.append_nil _).symm, depositTrace_of_error h, by simp⟩
  · rename_i field h
    refine ⟨[(nodeId, t)], rfl, ?_, by simpa using ht⟩
    simp [InMemoryField.run, depositOp, InMemoryField.exec, h]

section Chunk

variable {P : String × Trace K → Prop} (p : Streaming.Progress K) (worker : Worker)
  {c : Piece K} (hc : ∀ success, P (worker.nodeId, c.trace 0.5 success))

include hc

theorem deposited_depositTtft : Deposited P p (p.depositTtft worker 0.5 c).2 := by
  unfold Streaming.Progress.depositTtft
  split_ifs
  · have h := deposited_deposit p worker.nodeId (hc (c.success.getD true))
    split
    · rename_i heq
      exact heq ▸ h
    · rename_i heq
      have h : Deposited P p (Except.ok (), _).2 := heq ▸ h
      exact h
  · exact .refl P p

theorem deposited_depositVelocity : Deposited P p (p.depositVelocity worker 0.5 c).2 := by
  unfold Streaming.Progress.depositVelocity
  split_ifs
  · exact deposited_deposit p worker.nodeId (hc true)
  · exact .refl P p

theorem deposited_depositChunk : Deposited P p (depositChunk p worker c).2 := by
  have httft := deposited_depositTtft p worker hc
  unfold depositChunk
  split
  · rename_i heq
    rwa [heq] at httft
  · rename_i q heq
    rw [heq] at httft
    have hvelocity := deposited_depositVelocity q worker hc
    split
    · rename_i heq'
      rw [heq'] at hvelocity
      exact httft.trans hvelocity
    · rename_i heq'
      rw [heq'] at hvelocity
      exact httft.trans hvelocity

end Chunk

/-- The deposit at the end of `route`. -/
theorem finish_cases {f g : InMemoryField K} {worker : Worker} {context : Option (Dict String K)}
    {result : InferenceResult K} {outcome : Except FieldError (InferenceResult K × String)}
    (h : Router.finish f worker context result = (outcome, g)) :
    (∃ e, outcome = .error e ∧ g = f) ∨ (∃ routed, outcome = .ok routed) ∧
      g = f.run [.depositTrace result.nodeId (Router.traceOf worker context result)] := by
  unfold Router.finish at h
  split at h
  · rename_i e field hdeposit
    obtain ⟨rfl, rfl⟩ := Prod.mk.inj h
    exact Or.inl ⟨e, rfl, depositTrace_of_error hdeposit⟩
  · rename_i field hdeposit
    obtain ⟨rfl, rfl⟩ := Prod.mk.inj h
    exact Or.inr ⟨⟨_, rfl⟩, by simp [InMemoryField.run, InMemoryField.exec, hdeposit]⟩

variable [Transcendental K] {platform : Platform K} {config : Config K}

/-- A step writes to the field what it adds to the account, which its point can observe. -/
theorem resume_deposits {i : Input K} {x : Shared K} {p : Point K} {next : Shared K × Point K}
    (h : resume platform config i x p = some next) :
    ∃ ds, next.2.deposits platform = p.deposits platform ++ ds ∧
      next.1.field = x.field.run (ds.map depositOp) ∧ ∀ d ∈ ds, p.Observes platform d := by
  have unwritten : next.1.field = x.field → next.2.deposits platform = p.deposits platform →
      ∃ ds, next.2.deposits platform = p.deposits platform ++ ds ∧
        next.1.field = x.field.run (ds.map depositOp) ∧ ∀ d ∈ ds, p.Observes platform d :=
    fun hfield hdeposits => ⟨[], hdeposits.trans (List.append_nil _).symm, hfield, by simp⟩
  have taken : ∀ (a : Admission K) (worker : Worker) (p : Streaming.Progress K)
      (c : Piece K),
      Deposited (fun d => ∃ success, d = (worker.nodeId, c.trace 0.5 success))
        { p with field := x.field } (depositChunk { p with field := x.field } worker c).2 :=
    fun a worker p c => deposited_depositChunk _ worker fun success => ⟨success, rfl⟩
  cases step_of_resume h with
  | unauthorized ha | notReady ha | noClient ha | call ha | unlimited ha =>
    cases ha <;> exact unwritten rfl rfl
  | ask | evaluate | allow | deny | limiterRaised | unserved | stream | dispatch | execute |
      chunk | close | abort | cancel => exact unwritten rfl rfl
  | depositRaised hfinish =>
    obtain ⟨e, -, hfield⟩ | ⟨⟨routed, hr⟩, -⟩ := finish_cases hfinish
    · exact unwritten hfield rfl
    · cases hr
  | answer hfinish | usageRaised hfinish =>
    obtain ⟨e, hr, -⟩ | ⟨-, hfield⟩ := finish_cases hfinish
    · cases hr
    · exact ⟨_, rfl, hfield, by simp [Point.Observes]⟩
  | @next a worker p c q hchunk =>
    obtain ⟨ds, hds, hfield, hobserved⟩ := taken a worker p c
    rw [hchunk] at hds hfield
    exact ⟨ds, hds, hfield, hobserved⟩
  | @broken a worker p c e q hchunk =>
    obtain ⟨ds, hds, hfield, hobserved⟩ := taken a worker p c
    rw [hchunk] at hds hfield
    exact ⟨ds, hds, hfield, hobserved⟩
  | @finish a worker p ending => cases ending <;> exact unwritten rfl rfl

/-- A step of a request, by its write. -/
theorem resume_added {s : IngressState K} {tid : Nat} {i : Input K} {p q : Point K} {x : Shared K}
    (hp : s.task tid = some p) (hx : resume platform config i s.shared p = some (x, q)) :
    ∃ ds, added platform config s tid i = some ds ∧
      q.deposits platform = p.deposits platform ++ ds ∧
      x.field = s.shared.field.run (ds.map depositOp) := by
  obtain ⟨ds, hds, hfield, -⟩ := resume_deposits hx
  refine ⟨ds, ?_, hds, hfield⟩
  have hds : q.deposits platform = p.deposits platform ++ ds := hds
  simp [added, hp, hx, hds]

variable (platform config)

/-- The field as a component of the server. -/
def fieldProjection :
    @Run.Projection (IngressState K) (IngressEvent K) (InMemoryField K) (Write K)
      (ingress platform config).step (fun f w => some (f.run w.ops)) where
  view s := s.shared.field
  label := writeOf platform config
  visible {s e t w} h hlabel := by
    obtain ⟨tid, r, rfl, -, rfl⟩ | ⟨tid, i, p, x, q, rfl, hp, hx, rfl⟩ | ⟨rate, x, rfl, hx, rfl⟩ :=
      (ingress platform config).step_cases h
    · cases hlabel
    · obtain ⟨ds, hds, -, hfield⟩ := resume_added hp hx
      simp only [writeOf, hds, Option.map_some, Option.some.injEq] at hlabel
      simp only [← hlabel, Write.ops, State.shared_move, hfield]
    · obtain rfl := Option.some.inj hx
      obtain rfl := Option.some.inj hlabel
      rfl
  hidden {s e t} h hlabel := by
    obtain ⟨tid, r, rfl, -, rfl⟩ | ⟨tid, i, p, x, q, rfl, hp, hx, rfl⟩ | ⟨rate, x, rfl, hx, rfl⟩ :=
      (ingress platform config).step_cases h
    · rfl
    · obtain ⟨ds, hds, -⟩ := resume_added hp hx
      simp [writeOf, hds] at hlabel
    · cases hlabel

/-- What a run writes to the field. -/
def writesOf (x : Shared K) (es : List (IngressEvent K)) : List (Write K) :=
  (fieldProjection platform config).trace (.start x) es

omit [Transcendental K] in
/-- The field runs through all writes. -/
theorem execAll_writes (f : InMemoryField K) (ws : List (Write K)) :
    Run.execAll (fun f (w : Write K) => some (f.run w.ops)) f ws =
      some (f.run (ws.flatMap Write.ops)) := by
  induction ws generalizing f with
  | nil => rfl
  | cons w ws ih => simp [ih, InMemoryField.run_append]

variable {platform config}

/-- The writes of a request are its account. -/
theorem depositsOf_writesOf {x : Shared K} {es : List (IngressEvent K)} {s : IngressState K}
    (hrun : Run.execAll (ingress platform config).step (.start x) es = some s) (tid : Nat) :
    (writesOf platform config x es).flatMap (Write.depositsOf tid) = accountOf platform s tid := by
  refine Run.execAll_induction (ingress platform config).step
    (P := fun es s => (writesOf platform config x es).flatMap (Write.depositsOf tid) =
      accountOf platform s tid) rfl ?_ es s hrun
  intro es s e t hs ih hstep
  have hsnoc : writesOf platform config x (es ++ [e]) =
      writesOf platform config x es ++ (writeOf platform config s e).toList :=
    (fieldProjection platform config).trace_snoc hs hstep
  rw [hsnoc, List.flatMap_append, ih]
  obtain ⟨tid', r, rfl, hfree, rfl⟩ | ⟨tid', i, p, y, q, rfl, hp, hy, rfl⟩ |
    ⟨rate, y, rfl, -, rfl⟩ := (ingress platform config).step_cases hstep
  · by_cases hne : tid = tid'
    · subst hne
      simp [writeOf, accountOf, hfree, ingress, Point.deposits]
    · simp [writeOf, accountOf, s.task_move_of_ne hne]
  · obtain ⟨ds, hds, hq, -⟩ := resume_added hp hy
    by_cases hne : tid = tid'
    · subst hne
      simp [writeOf, accountOf, hds, hp, hq, Write.depositsOf]
    · simp [writeOf, accountOf, hds, s.task_move_of_ne hne, Write.depositsOf, Ne.symm hne]
  · simp [writeOf, accountOf, Write.depositsOf]

omit [Transcendental K] in
/-- A request with something in its account has been let in. -/
theorem exists_admission_of_deposits {p : Point K} (h : p.deposits platform ≠ []) :
    ∃ a, p.admission? = some a := by
  cases p with
  | received | resolving | limiting | refused => exact absurd rfl h
  | admitted a | executing a | executed a | streaming a | sending a | unserved a | served a =>
    exact ⟨a, rfl⟩

/-- In every run of the server, whatever requests interleave, the field is the old one after the
writes of the run; the writes of each request are its account; and a request with something in its
account was authenticated as its tenant and passed the limiter. -/
theorem field_of_run (platform : Platform K) (config : Config K) (x : Shared K)
    (es : List (IngressEvent K)) (s : IngressState K)
    (hrun : Run.execAll (ingress platform config).step (.start x) es = some s) :
    s.shared.field = x.field.run ((writesOf platform config x es).flatMap Write.ops) ∧
      ∀ tid,
        (writesOf platform config x es).flatMap (Write.depositsOf tid) = accountOf platform s tid ∧
        (accountOf platform s tid ≠ [] → ∃ a, (s.task tid).bind Point.admission? = some a ∧
          Authentic platform config es tid a.request a.tenant ∧ Passed config a) := by
  constructor
  · have hfield := (fieldProjection platform config).execAll_trace hrun
    exact (Option.some.inj ((execAll_writes ..).symm.trans hfield)).symm
  · intro tid
    refine ⟨depositsOf_writesOf hrun tid, fun hne => ?_⟩
    cases hp : s.task tid with
    | none => exact absurd (by simp [accountOf, hp]) hne
    | some p =>
      have hdeposits : p.deposits platform ≠ [] := by simpa [accountOf, hp] using hne
      obtain ⟨a, ha⟩ := exists_admission_of_deposits hdeposits
      exact ⟨a, ha, (letIn_run hrun hp).admitted a ha⟩

/-! ## The accounts of served requests -/

/-- The chunk that a request learns. -/
def Input.chunk? : Input K → Option (Piece K)
  | .chunk c _ => some c
  | _ => none

/-- The chunk that some request learns. -/
def learned? : IngressEvent K → Option (Piece K)
  | .resume _ i => i.chunk?
  | _ => none

/-- The chunks that the worker of a request has yielded. -/
def chunksOf (es : List (IngressEvent K)) (tid : Nat) : List (Piece K) :=
  es.filterMap fun
    | .resume tid' i => if tid' = tid then i.chunk? else none
    | _ => none

/-- The worker of a request ended with this result and this text. -/
def Ended (es : List (IngressEvent K)) (tid : Nat) (worker : Worker) (result : InferenceResult K)
    (text : Option Json) : Prop :=
  ∃ ended, .resume tid (.execute ended) ∈ es ∧
    result = Router.Outcome.result worker ended.outcome ∧ text = ended.text

/-- A document made of the result with which the worker ended. -/
def Answered (es : List (IngressEvent K)) (tid : Nat) (a : Admission K) (worker : Worker)
    (result : InferenceResult K) (doc : Json) : Prop :=
  ∃ text hex now, Ended es tid worker result text ∧
    document a.request hex now result text = some doc

/-- The result that the worker of a request returns. -/
def returned? : IngressEvent K → Option (Nat × InferenceResult K)
  | .resume tid (.execute (.returned result _)) => some (tid, result)
  | _ => none

/-- A result that a worker returns carries the worker's own node id. -/
def CarriesNodeId (s : IngressState K) (e : IngressEvent K) : Prop :=
  ∀ r ∈ returned? e, ∀ worker ∈ (s.task r.1).bind Point.worker?, r.2.nodeId = worker.nodeId

instance (s : IngressState K) (e : IngressEvent K) : Decidable (CarriesNodeId s e) :=
  inferInstanceAs (Decidable (∀ r ∈ returned? e, ∀ worker ∈ (s.task r.1).bind Point.worker?,
    r.2.nodeId = worker.nodeId))

/-- The account of a stream whose consumer has taken some chunks. -/
structure Streamed (worker : Worker) (chunks : List (Piece K))
    (p : Streaming.Progress K) : Prop where
  deposits : p.deposits = (Streaming.tracesOf 0.5 false chunks).map (worker.nodeId, ·)
  ttftDeposited : p.ttftDeposited = chunks.any Streaming.Chunk.isFirst

/-- Where the account of a request comes from, for requests with a worker. -/
def Accounted (es : List (IngressEvent K)) (tid : Nat) (worker : Worker) : Point K → Prop
  | .executed _ _ result text => result.nodeId = worker.nodeId ∧ Ended es tid worker result text
  | .streaming _ _ p => Streamed worker (chunksOf es tid) p
  | .sending _ _ p c => ∃ chunks, chunksOf es tid = chunks ++ [c] ∧ Streamed worker chunks p
  | .served a _ (.json result doc) =>
    result.nodeId = worker.nodeId ∧ Answered es tid a worker result doc
  | .served _ _ .depositRaised => False
  | .served _ _ (.usageRaised result) =>
    result.nodeId = worker.nodeId ∧ ∃ text, Ended es tid worker result text
  | .served _ _ (.streamed p) => Streamed worker (chunksOf es tid) p
  | .served _ _ (.broken _) => False
  | .served _ _ (.disconnected p) =>
    ∃ chunks c, chunksOf es tid = chunks ++ [c] ∧ Streamed worker chunks p
  | .served _ _ (.cancelled p) => Streamed worker (chunksOf es tid) p
  | _ => True

section Served

omit [Field K] [LinearOrder K] [Transcendental K] in
theorem chunksOf_snoc (es : List (IngressEvent K)) (e : IngressEvent K) (tid : Nat) :
    chunksOf (es ++ [e]) tid = chunksOf es tid ++ chunksOf [e] tid :=
  List.filterMap_append

omit [Transcendental K] in
theorem tracesOf_snoc (capabilityMatch : K) (ttftDeposited : Bool)
    (chunks : List (Piece K)) (c : Piece K) :
    Streaming.tracesOf capabilityMatch ttftDeposited (chunks ++ [c]) =
      Streaming.tracesOf capabilityMatch ttftDeposited chunks ++
        (c.ttftTraces capabilityMatch (ttftDeposited || chunks.any Streaming.Chunk.isFirst) ++
          c.velocityTraces capabilityMatch) := by
  induction chunks generalizing ttftDeposited with
  | nil => simp [Streaming.tracesOf]
  | cons d chunks ih => simp [Streaming.tracesOf, ih, Bool.or_assoc]

omit [Transcendental K] in
/-- The deposits of a chunk whose worker is tracked. -/
theorem depositChunk_of_known {p : Streaming.Progress K} (hf : p.field.Consistent)
    {worker : Worker} (hn : worker.nodeId ∈ p.field.nodeIds) {chunks : List (Piece K)}
    (h : Streamed worker chunks p) (c : Piece K) :
    ∃ q, depositChunk p worker c = (.ok (), q) ∧ Streamed worker (chunks ++ [c]) q := by
  have httft := Streaming.Progress.depositTtft_eq hf hn 0.5 c
  have hrows := p.field_after worker.nodeId (c.ttftTraces 0.5 p.ttftDeposited)
  have hknown : worker.nodeId ∈
      (p.after worker.nodeId (c.ttftTraces 0.5 p.ttftDeposited)).field.nodeIds :=
    hrows.nodeIds ▸ hn
  have hvelocity := Streaming.Progress.depositVelocity_eq
    (p := { p.after worker.nodeId (c.ttftTraces 0.5 p.ttftDeposited) with
      ttftDeposited := p.ttftDeposited || c.isFirst }) (hrows.consistent hf) hknown 0.5 c
  refine ⟨_, by simp only [depositChunk, httft, hvelocity]; rfl, ?_, ?_⟩
  · simp [Streaming.Progress.after, h.deposits, h.ttftDeposited, tracesOf_snoc]
  · simp [Streaming.Progress.after, h.ttftDeposited]

omit [Field K] [LinearOrder K] [Transcendental K] in
theorem chunksOf_resume (es : List (IngressEvent K)) (tid : Nat) (i : Input K) :
    chunksOf (es ++ [.resume tid i]) tid = chunksOf es tid ++ i.chunk?.toList := by
  rw [chunksOf_snoc]
  cases h : i.chunk? <;> simp [chunksOf, h]

omit [Field K] [LinearOrder K] [Transcendental K] in
theorem chunksOf_resume_of_none {i : Input K} (h : i.chunk? = none) (es : List (IngressEvent K))
    (tid : Nat) : chunksOf (es ++ [.resume tid i]) tid = chunksOf es tid := by
  rw [chunksOf_resume, h, Option.toList_none, List.append_nil]

omit [Field K] [LinearOrder K] [Transcendental K] in
/-- A step that is not the request's own. -/
theorem chunksOf_of_ne {e : IngressEvent K} {tid : Nat} (h : e.tid? ≠ some tid)
    (es : List (IngressEvent K)) : chunksOf (es ++ [e]) tid = chunksOf es tid := by
  rw [chunksOf_snoc]
  cases e with
  | spawn | external => exact List.append_nil _
  | resume tid' i =>
    have hne : tid' ≠ tid := fun he => h (congrArg some he)
    simp [chunksOf, hne]

omit [Field K] [LinearOrder K] [Transcendental K] in
/-- Before its first step a request has learned no chunk. -/
theorem chunksOf_of_fresh {es : List (IngressEvent K)} {tid : Nat}
    (h : ∀ e ∈ es, e.tid? ≠ some tid) : chunksOf es tid = [] := by
  induction es using List.reverseRecOn with
  | nil => rfl
  | append_singleton es e ih =>
    rw [chunksOf_of_ne (h e (by simp))]
    exact ih fun e' he' => h e' (List.mem_append_left _ he')

omit [LinearOrder K] [Transcendental K] in
theorem Ended.snoc {es : List (IngressEvent K)} {tid : Nat} {worker : Worker}
    {result : InferenceResult K} {text : Option Json} (h : Ended es tid worker result text)
    (e : IngressEvent K) : Ended (es ++ [e]) tid worker result text := by
  obtain ⟨ended, hmem, hresult, htext⟩ := h
  exact ⟨ended, List.mem_append_left _ hmem, hresult, htext⟩

omit [Transcendental K] in
/-- An account stays explained while the worker yields no chunk. -/
theorem Accounted.snoc {es : List (IngressEvent K)} {tid : Nat} {worker : Worker} {p : Point K}
    (h : Accounted es tid worker p) {e : IngressEvent K}
    (hchunks : chunksOf (es ++ [e]) tid = chunksOf es tid) :
    Accounted (es ++ [e]) tid worker p := by
  cases p with
  | executed => exact ⟨h.1, h.2.snoc e⟩
  | streaming | sending => simpa only [Accounted, hchunks] using h
  | served a worker' answer =>
    cases answer with
    | json =>
      obtain ⟨hid, text, hex, now, hended, hdoc⟩ := h
      exact ⟨hid, text, hex, now, hended.snoc e, hdoc⟩
    | usageRaised =>
      obtain ⟨hid, text, hended⟩ := h
      exact ⟨hid, text, hended.snoc e⟩
    | depositRaised | broken => exact h
    | aborted => trivial
    | streamed | disconnected | cancelled => simpa only [Accounted, hchunks] using h
  | received | resolving | limiting | admitted | executing | refused | unserved => trivial

/-- What is known of a request: no chunk before it has a worker, and then its account. -/
structure Kept (ids : List String) (es : List (IngressEvent K)) (tid : Nat) (p : Point K) :
    Prop where
  unassigned : p.worker? = none → chunksOf es tid = []
  assigned : ∀ worker, p.worker? = some worker → worker.nodeId ∈ ids ∧ Accounted es tid worker p

omit [Transcendental K] in
theorem Kept.of_none {ids : List String} {es : List (IngressEvent K)} {tid : Nat} {p : Point K}
    (hp : p.worker? = none) (hchunks : chunksOf es tid = []) : Kept ids es tid p where
  unassigned _ := hchunks
  assigned worker hworker := by
    rw [hp] at hworker
    cases hworker

omit [Transcendental K] in
theorem Kept.of_some {ids : List String} {es : List (IngressEvent K)} {tid : Nat} {p : Point K}
    {worker : Worker} (hp : p.worker? = some worker) (hn : worker.nodeId ∈ ids)
    (haccounted : Accounted es tid worker p) : Kept ids es tid p where
  unassigned hnone := by
    rw [hp] at hnone
    cases hnone
  assigned worker' hworker := by
    obtain rfl := Option.some.inj (hp.symm.trans hworker)
    exact ⟨hn, haccounted⟩

/-- A step of the request keeps it. -/
theorem Kept.resume
    (hnamed : ∀ router, config.router = some router →
      ∀ n w, router.workers.get? n = some w → w.nodeId = n)
    {es : List (IngressEvent K)} {s : IngressState K} {tid : Nat} {i : Input K} {p : Point K}
    (hf : s.shared.field.Consistent) (hcarries : CarriesNodeId s (.resume tid i))
    (hp : s.task tid = some p) (h : Kept s.shared.field.nodeIds es tid p)
    {next : Shared K × Point K} (hx : Server.resume platform config i s.shared p = some next) :
    Kept s.shared.field.nodeIds (es ++ [.resume tid i]) tid next.2 := by
  have unchanged : i.chunk? = none → chunksOf (es ++ [.resume tid i]) tid = chunksOf es tid :=
    fun hi => chunksOf_resume_of_none hi es tid
  have taken : ∀ {worker : Worker} {chunks : List (Piece K)} {p : Streaming.Progress K},
      worker.nodeId ∈ s.shared.field.nodeIds → Streamed worker chunks p → ∀ c, ∃ q,
        depositChunk { p with field := s.shared.field } worker c = (.ok (), q) ∧
          Streamed worker (chunks ++ [c]) q := fun {worker chunks p} hn hstreamed c =>
    depositChunk_of_known (p := { p with field := s.shared.field }) hf hn
      ⟨hstreamed.deposits, hstreamed.ttftDeposited⟩ c
  cases step_of_resume hx with
  | unauthorized ha | notReady ha | noClient ha | call ha | unlimited ha =>
    cases ha <;> exact .of_none rfl ((unchanged rfl).trans (h.unassigned rfl))
  | ask | evaluate | allow | deny | limiterRaised | unserved =>
    exact .of_none rfl ((unchanged rfl).trans (h.unassigned rfl))
  | @stream a router draw worker hrouter hworker =>
    have hchunks := (unchanged rfl).trans (h.unassigned rfl)
    refine .of_some rfl (Streaming.sampled_tracked (hnamed router hrouter) hworker) ?_
    exact ⟨by rw [hchunks]; rfl, by rw [hchunks]; rfl⟩
  | @dispatch a router draw worker hrouter hworker =>
    exact .of_some rfl (Streaming.sampled_tracked (hnamed router hrouter) hworker) trivial
  | @execute a worker ended =>
    obtain ⟨hn, -⟩ := h.assigned worker rfl
    refine .of_some rfl hn ⟨?_, ended, by simp, rfl, rfl⟩
    cases ended with
    | returned result text => exact hcarries (tid, result) rfl worker (by simp [hp, Point.worker?])
    | raised => rfl
  | @depositRaised a worker result text hex now e field hfinish =>
    obtain ⟨hn, hid, -⟩ := h.assigned worker rfl
    rw [Router.finish_of_known hf worker _ result (hid ▸ hn)] at hfinish
    cases hfinish
  | @answer a worker result text hex now _ _ doc _ hdoc =>
    obtain ⟨hn, hid, hended⟩ := h.assigned worker rfl
    exact .of_some rfl hn ⟨hid, text, hex, now, hended.snoc _, hdoc⟩
  | @usageRaised a worker result text =>
    obtain ⟨hn, hid, hended⟩ := h.assigned worker rfl
    exact .of_some rfl hn ⟨hid, text, hended.snoc _⟩
  | @chunk a worker p c created =>
    obtain ⟨hn, hstreamed⟩ := h.assigned worker rfl
    exact .of_some rfl hn ⟨chunksOf es tid, chunksOf_resume .., hstreamed.deposits,
      hstreamed.ttftDeposited⟩
  | @next a worker p c q hchunk =>
    obtain ⟨hn, chunks, hchunks, hstreamed⟩ := h.assigned worker rfl
    obtain ⟨q', hq', hlater⟩ := taken hn hstreamed c
    obtain rfl : q' = q := (Prod.mk.inj (hq'.symm.trans hchunk)).2
    refine .of_some rfl hn ?_
    rw [Accounted, unchanged rfl, hchunks]
    exact hlater
  | @broken a worker p c e q hchunk =>
    obtain ⟨hn, chunks, hchunks, hstreamed⟩ := h.assigned worker rfl
    obtain ⟨q', hq', -⟩ := taken hn hstreamed c
    cases hq'.symm.trans hchunk
  | close =>
    obtain ⟨hn, chunks, hchunks, hstreamed⟩ := h.assigned _ rfl
    exact .of_some rfl hn ⟨chunks, _, (unchanged rfl).trans hchunks, hstreamed⟩
  | @finish a worker p ending =>
    obtain ⟨hn, hstreamed⟩ := h.assigned worker rfl
    refine .of_some rfl hn ?_
    rw [Accounted, unchanged rfl]
    cases ending <;> exact ⟨hstreamed.deposits, hstreamed.ttftDeposited⟩
  | abort =>
    obtain ⟨hn, -⟩ := h.assigned _ rfl
    exact .of_some rfl hn trivial
  | @cancel a worker p =>
    obtain ⟨hn, hstreamed⟩ := h.assigned worker rfl
    refine .of_some rfl hn ?_
    rw [Accounted, unchanged rfl]
    exact ⟨hstreamed.deposits, hstreamed.ttftDeposited⟩

omit [Transcendental K] in
theorem Kept.snoc {ids : List String} {es : List (IngressEvent K)} {tid : Nat} {p : Point K}
    (h : Kept ids es tid p) {e : IngressEvent K} (hne : e.tid? ≠ some tid) :
    Kept ids (es ++ [e]) tid p where
  unassigned hp := (chunksOf_of_ne hne es).trans (h.unassigned hp)
  assigned worker hp := (h.assigned worker hp).imp_right fun ha => ha.snoc (chunksOf_of_ne hne es)

omit [Transcendental K] in
theorem rowsOnly_run_deposits (f : InMemoryField K) (ds : List (String × Trace K)) :
    f.RowsOnly (f.run (ds.map depositOp)) := by
  induction ds generalizing f with
  | nil => exact .refl f
  | cons d ds ih => exact (f.depositTrace_rowsOnly d.1 d.2).trans (ih _)

/-- What is known of every request of a run. -/
theorem kept_run
    (hnamed : ∀ router, config.router = some router →
      ∀ n w, router.workers.get? n = some w → w.nodeId = n)
    {x : Shared K} (hf : x.field.Consistent) {es : List (IngressEvent K)} {s : IngressState K}
    (hrun : Run.execAll (ingress platform config).step (.start x) es = some s)
    (hcarries : Run.EachStep (ingress platform config).step CarriesNodeId (.start x) es) {tid : Nat}
    {p : Point K} (hp : s.task tid = some p) : Kept x.field.nodeIds es tid p := by
  have houtline : (ingress platform config).Outline (τ := Nat) x
      (fun s e => CarriesNodeId s e ∧ ((ingress platform config).step s e).isSome)
      (fun _ y => y.field.Consistent ∧ y.field.nodeIds = x.field.nodeIds)
      (fun es tid _ p => Kept x.field.nodeIds es tid p) :=
    { start := ⟨hf, rfl⟩
      spawn := fun es s tid r hs hann hG => by
        have hfresh := (ingress platform config).tid?_ne_of_none hs
          ((ingress platform config).task_of_spawn hG.2)
        refine ⟨hann.1, .of_none rfl ?_⟩
        rw [chunksOf_snoc, chunksOf_of_fresh hfresh]
        rfl
      resume := fun es s tid i p y q _ hann hG hp hx => by
        obtain ⟨⟨hc, hids⟩, htasks⟩ := hann
        obtain ⟨ds, -, hfield, -⟩ := resume_deposits hx
        have hrows := rowsOnly_run_deposits s.shared.field ds
        rw [← hfield] at hrows
        refine ⟨⟨hrows.consistent hc, hrows.nodeIds.trans hids⟩, ?_⟩
        have hkept := htasks tid p hp
        rw [← hids] at hkept ⊢
        exact hkept.resume hnamed hc hG.1 hp hx
      external := fun es s rate y _ hann _ hy => by
        obtain rfl := Option.some.inj hy
        have hrows := s.shared.field.applyEvaporation_rowsOnly rate
        exact ⟨hrows.consistent hann.1.1, hrows.nodeIds.trans hann.1.2⟩
      stable := fun _ _ _ _ _ _ _ _ _ _ hne _ h => h.snoc hne }
  have hsteps := Run.eachStep_isSome _ hrun
  exact (houtline.run _ hrun fun pre e post s hes hs =>
    ⟨hcarries pre e post s hes hs, hsteps pre e post s hes hs⟩).2 tid p hp

end Served

/-- The writes of a request that has been served, in every run of the server over workers under
their own ids. With a document it is one deposit, of the result that the document is made of, on the
row of the worker that was chosen for it. With a stream they are the traces of the chunks that the
consumer has taken, on that row: if the consumer goes away at a frame, its chunk is not among them,
and if the stream is cancelled as it waits for its worker, they all are. -/
theorem deposits_of_served (platform : Platform K) (config : Config K)
    (hnamed : ∀ router, config.router = some router →
      ∀ n w, router.workers.get? n = some w → w.nodeId = n)
    (x : Shared K) (hf : x.field.Consistent) (es : List (IngressEvent K)) (s : IngressState K)
    (hrun : Run.execAll (ingress platform config).step (.start x) es = some s)
    (hcarries : Run.EachStep (ingress platform config).step CarriesNodeId (.start x) es) (tid : Nat)
    (a : Admission K) (worker : Worker) (answer : Answer K)
    (hserved : s.task tid = some (.served a worker answer)) :
    let written := (writesOf platform config x es).flatMap (Write.depositsOf tid)
    let traces chunks := (Streaming.tracesOf (K := K) 0.5 false chunks).map (worker.nodeId, ·)
    worker.nodeId ∈ x.field.nodeIds ∧
      match answer with
      | .json result doc => Answered es tid a worker result doc ∧ written =
          [(worker.nodeId, Router.traceOf worker (capContext platform a.request) result)]
      | .depositRaised => False
      | .usageRaised result => (∃ text, Ended es tid worker result text) ∧ written =
          [(worker.nodeId, Router.traceOf worker (capContext platform a.request) result)]
      | .aborted => written = []
      | .streamed _ => written = traces (chunksOf es tid)
      | .broken _ => False
      | .disconnected _ =>
          ∃ chunks c, chunksOf es tid = chunks ++ [c] ∧ written = traces chunks
      | .cancelled _ => written = traces (chunksOf es tid) := by
  intro written traces
  obtain ⟨hn, haccounted⟩ := (kept_run hnamed hf hrun hcarries hserved).assigned worker rfl
  have hwritten : written = (Point.served a worker answer).deposits platform := by
    rw [show written = accountOf platform s tid from depositsOf_writesOf hrun tid]
    simp [accountOf, hserved]
  refine ⟨hn, ?_⟩
  cases answer with
  | json result doc =>
    obtain ⟨hid, hanswered⟩ := haccounted
    exact ⟨hanswered, by rw [hwritten, Point.deposits, hid]⟩
  | usageRaised result =>
    obtain ⟨hid, hended⟩ := haccounted
    exact ⟨hended, by rw [hwritten, Point.deposits, hid]⟩
  | depositRaised | broken => exact haccounted
  | aborted => exact hwritten
  | streamed p | cancelled p => exact hwritten.trans haccounted.deposits
  | disconnected p =>
    obtain ⟨chunks, c, hchunks, hstreamed⟩ := haccounted
    exact ⟨chunks, c, hchunks, hwritten.trans hstreamed.deposits⟩

/-! ## One answer -/

section Sample

attribute [local instance] unitExp

/-- The request of `sampleRun` up to its document. -/
def answeredRun : List (IngressEvent ℚ) :=
  sampleRun ++ [.resume 0 (.execute (.returned ⟨"a", 1 / 2, 5, true, 0⟩ (some (.string "Hi")))),
    .resume 0 (.answer "0a1b2c3d4e5f" 121)]

/-- The deposit of the request, which was authenticated as the tenant of its key. -/
theorem field_of_run_answeredRun :
    ∃ s a, Run.execAll (ingress samplePlatform sampleConfig).step (.start sampleShared)
        answeredRun = some s ∧
      s.shared.field = sampleShared.field.run
        ((writesOf samplePlatform sampleConfig sampleShared answeredRun).flatMap Write.ops) ∧
      (s.task 0).bind Point.admission? = some a ∧
      Authentic samplePlatform sampleConfig answeredRun 0 a.request a.tenant := by
  have hdeposits : (Run.execAll (ingress samplePlatform sampleConfig).step (.start sampleShared)
      answeredRun).any (fun s => !(accountOf samplePlatform s 0).isEmpty) = true := by
    decide +kernel
  obtain ⟨s, hs, hne⟩ := (Option.any_eq_true ..).mp hdeposits
  obtain ⟨hfield, haccounts⟩ := field_of_run samplePlatform sampleConfig sampleShared answeredRun s
    hs
  obtain ⟨a, ha, hauthentic, -⟩ := (haccounts 0).2 fun hnil => by simp [hnil] at hne
  exact ⟨s, a, hs, hfield, ha, hauthentic⟩

theorem carries_answeredRun : Run.EachStep (ingress samplePlatform sampleConfig).step CarriesNodeId
    (.start sampleShared) answeredRun :=
  Run.eachStep_of_decide _ (by decide +kernel)

theorem deposits_of_served_answeredRun :
    ∃ t, (writesOf samplePlatform sampleConfig sampleShared answeredRun).flatMap
      (Write.depositsOf 0) = [("a", t)] := by
  have hanswered : ((Run.execAll (ingress samplePlatform sampleConfig).step (.start sampleShared)
      answeredRun).bind (·.task 0)).any (fun
        | .served _ worker (.json ..) => worker.nodeId = "a"
        | _ => false) = true := by decide +kernel
  obtain ⟨p, hp, hserved⟩ := (Option.any_eq_true ..).mp hanswered
  obtain ⟨s, hs, hp⟩ := Option.bind_eq_some_iff.mp hp
  split at hserved
  · rename_i a worker _ _ _
    obtain ⟨-, -, hwritten⟩ := deposits_of_served samplePlatform sampleConfig
      (by
        rintro router hrouter n w hw
        obtain rfl := Option.some.inj hrouter
        rw [Dict.get?_eq_some_iff] at hw
        obtain ⟨rfl, rfl⟩ := Prod.mk.inj (List.mem_singleton.mp hw)
        rfl)
      sampleShared (InMemoryField.consistent_new (List.nodup_singleton "a") (some [_]) rfl).1
      answeredRun s hs carries_answeredRun 0 a worker _ hp
    exact ⟨_, hwritten.trans (by rw [of_decide_eq_true hserved])⟩
  · cases hserved

end Sample

end StigmergicMesh.Server
