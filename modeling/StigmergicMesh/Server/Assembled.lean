import StigmergicMesh.Server.Mesh

/-!
# The server and its nodes together

In every run of a mesh the server and the calls of the nodes agree: a request has a call at the
worker that was sampled for it and nowhere else, and where the request stands says how far the call
is. What the server learns of a call is true of the node, so the mesh needs no assumption about its
workers other than that their numbers are sound and their clocks do not go back.
-/

namespace StigmergicMesh.Server

open WorkerNode Tasks

variable {K : Type*}

/-! ## Calls that tell the truth -/

section Obeys

variable [Field K] [LinearOrder K]

def TrueChunk (chunk : Int → TokenChunk K) : Prop := SaysOthers chunk ∧ Timed chunk

def TrueResult (nodeId : String) (result : Int → Option (Result K)) : Prop :=
  MaySayLeft result ∧ Own nodeId result

/-- A call of a node that is to begin, or what is left of one. -/
def Obeys (texts : Texts) (node : Node K) : CallStage K → Prop
  | .created body => ∃ job c, Monotone c.clock ∧ body = node.body texts (job, c)
  | .entering _ => False
  | stage => Counted.Sound TrueChunk (TrueResult node.nodeId) stage

theorem obeys_of_settled {texts : Texts} {node : Node K} {stage : CallStage K}
    (hsettled : stage.Settled)
    (h : Counted.Sound TrueChunk (TrueResult node.nodeId) stage) : Obeys texts node stage := by
  cases stage with
  | created | entering => exact hsettled.elim
  | inside | leaving | ended => exact h

/-- What a call shows is true of its node. -/
theorem Obeys.resume [IsStrictOrderedRing K] {texts : Texts} {node : Node K} (hnode : node.Sound)
    {s : Counted.Shared} (hs : s.locked = false) (hcount : 0 ≤ s.count) {stage : CallStage K}
    (h : Obeys texts node stage) (hwaits : stage.Waits = false)
    {signal : Counted.Signal String} {r : Counted.Shared × CallStage K}
    (hr : Counted.resume signal s stage = some r) :
    Obeys texts node r.2 ∧
      Counted.Shows TrueChunk (TrueResult node.nodeId) r.1.count r.2 := by
  have hsettled := Counted.resume_settled hs hwaits hr
  have hshows : Counted.Sound TrueChunk (TrueResult node.nodeId) r.2 ∧
      Counted.Shows TrueChunk (TrueResult node.nodeId) r.1.count r.2 := by
    cases stage with
    | created body =>
      obtain ⟨job, c, hclock, rfl⟩ := h
      cases signal with
      | next =>
        obtain rfl := Option.some.inj hr
        simp only [Counted.enter, Counted.Shared.locking_of_unlocked hs]
        exact Counted.settle_shows _ ((node.always_body texts (job, c) _).and
          (hnode.timed texts job hclock (by omega)))
      | throw x =>
        obtain rfl := Option.some.inj hr
        exact ⟨trivial, trivial⟩
    | entering body => exact h.elim
    | inside shown rest =>
      exact Counted.resume_shows (p := .inside shown rest)
        (Q := TrueResult node.nodeId) (P := TrueChunk) h hr
    | leaving exit => cases hwaits
    | ended exit => cases signal <;> cases hr
  exact ⟨obeys_of_settled hsettled hshows.1, hshows.2⟩

end Obeys

/-! ## Agreement -/

/-- The call has not ended: it is to begin, or it is suspended. -/
def Untold : CallStage K → Prop
  | .created _ => True
  | .inside _ (.suspends _ _ _) => True
  | _ => False

/-- A call that has not ended can go on. -/
theorem Untold.resume {stage : CallStage K} (h : Untold stage) (s : Counted.Shared) :
    (Counted.resume .next s stage).isSome := by
  cases stage with
  | created body => rfl
  | entering | leaving | ended => exact h.elim
  | inside shown rest =>
    cases rest with
    | ends => exact h.elim
    | suspends => rfl

/-- How far the call of a request is that stands at a point. -/
def Point.Suits : Point K → CallStage K → Prop
  | .executing _ _, stage => Untold stage
  | .streaming _ _ _, stage => Untold stage
  | .sending _ _ _ _, stage => Untold stage
  | .executed _ _ _ _, stage => ∃ exit, stage = .ended exit
  | .served _ _ (.broken _), _ => True
  | .served _ _ (.disconnected _), _ => True
  | .served _ _ _, stage => ∃ exit, stage = .ended exit
  | _, _ => True

/-- A call that is resumed and says nothing has not ended, if it is awaited. -/
theorem Point.suits_of_silence {created : Int} {p : Point K} {stage : CallStage K}
    {signal : Counted.Signal String} (hpermits : p.permits signal = true)
    (hsettled : stage.Settled) (h : hearing created p stage = none) : p.Suits stage := by
  have untold : (∀ exit, stage ≠ .ended exit) → Untold stage := by
    intro hopen
    cases stage with
    | created | entering | leaving => exact hsettled.elim
    | inside shown rest =>
      cases rest with
      | ends l exit => exact hsettled.elim
      | suspends out resume throw => trivial
    | ended exit => exact (hopen exit rfl).elim
  cases p with
  | executing a worker =>
    apply untold
    rintro exit rfl
    rcases exit with (_ | r) | (e | _ | _) <;> cases h
  | streaming a worker progress =>
    apply untold
    rintro exit rfl
    rcases exit with r | (e | _ | _) <;> cases h
  | served a worker answer =>
    cases answer with
    | broken | disconnected => trivial
    | json | depositRaised | usageRaised | aborted | streamed | cancelled => cases hpermits
  | received | resolving | limiting | admitted | sending | executed | refused | unserved =>
    cases hpermits

/-- What a request hears. -/
inductive Hears (created : Int) : Point K → CallStage K → Input K → Prop where
  | result {a worker r} :
      Hears created (.executing a worker) (.ended (.returned (some r)))
        (.execute (.returned (readResult r) r.text))
  | raised {a worker exit} :
      Hears created (.executing a worker) (.ended exit) (.execute .raised)
  | aborted {a worker exit} : Hears created (.executing a worker) (.ended exit) .abort
  | chunk {a worker progress chunk rest} :
      Hears created (.streaming a worker progress) (.inside (some chunk) rest)
        (.chunk (readChunk chunk) created)
  | finished {a worker progress exit ending} :
      Hears created (.streaming a worker progress) (.ended exit) (.finish ending)
  | cancelled {a worker progress exit} :
      Hears created (.streaming a worker progress) (.ended exit) .abort

theorem hears_of_hearing {created : Int} {p : Point K} {stage : CallStage K} {i : Input K}
    (h : hearing created p stage = some i) : Hears created p stage i := by
  unfold hearing at h
  split at h
  · cases h
    exact .result
  · cases h
    exact .raised
  · cases h
    exact .aborted
  · cases h
    exact .chunk
  · cases h
    exact .finished
  · cases h
    exact .finished
  · cases h
    exact .cancelled
  · cases h

/-- A request and the calls in its name agree. -/
structure Agreement (p? : Option (Point K)) (calls : String → Option (CallStage K)) : Prop where
  elsewhere : ∀ n, (∀ worker ∈ p?.bind Point.worker?, worker.nodeId ≠ n) → calls n = none
  called : ∀ p ∈ p?, ∀ worker ∈ p.worker?, ∃ stage,
    calls worker.nodeId = some stage ∧ p.Suits stage

/-- A request moves without its call. -/
theorem Agreement.follow {p q : Point K} {calls : String → Option (CallStage K)}
    (h : Agreement (some p) calls) (hworker : q.worker? = p.worker?)
    (hsuits : ∀ stage, p.Suits stage → q.Suits stage) : Agreement (some q) calls where
  elsewhere n hn := h.elsewhere n (by simpa [hworker] using hn)
  called := by
    rintro _ ⟨⟩ worker hmem
    obtain ⟨stage, hstage, hp⟩ := h.called p rfl worker (hworker ▸ hmem)
    exact ⟨stage, hstage, hsuits stage hp⟩

/-- The call of a request moves with it. -/
theorem Agreement.move {p? : Option (Point K)} {q : Point K}
    {calls calls' : String → Option (CallStage K)} (h : Agreement p? calls) {worker : Worker}
    (hworker : q.worker? = some worker)
    (hsame : ∀ n ∈ p?.bind Point.worker?, n.nodeId = worker.nodeId) {stage : CallStage K}
    (hstage : calls' worker.nodeId = some stage) (hsuits : q.Suits stage)
    (hothers : ∀ n, n ≠ worker.nodeId → calls' n = calls n) : Agreement (some q) calls' where
  elsewhere n hn := by
    have hne : worker.nodeId ≠ n := hn worker (by simpa using hworker)
    rw [hothers n hne.symm]
    exact h.elsewhere n fun w hw => hsame w hw ▸ hne
  called := by
    rintro _ ⟨⟩ w hw
    obtain rfl := Option.some.inj (hworker.symm.trans hw)
    exact ⟨stage, hstage, hsuits⟩

/-- The calls in the name of a request. -/
def Mesh.callsOf (m : Mesh K) (tid : Nat) : String → Option (CallStage K) :=
  fun n => (m.calls n).task tid

/-- The calls after the call of a request has moved. -/
theorem callsOf_move (m : Mesh K) (i : IngressState K) (n : String) (tid : Nat)
    (x : Counted.Shared) (stage : CallStage K) (tid' : Nat) (n' : String) :
    Mesh.callsOf ⟨i, Function.update m.calls n ((m.calls n).move tid x stage)⟩ tid' n' =
      if tid' = tid ∧ n' = n then some stage else m.callsOf tid' n' := by
  by_cases hn : n' = n
  · subst hn
    by_cases htid : tid' = tid
    · subst htid
      simp [Mesh.callsOf]
    · simp [Mesh.callsOf, htid, State.task_move_of_ne _ htid]
  · simp [Mesh.callsOf, hn]

/-- The request that a step is for. -/
def MeshEvent.tid? : MeshEvent K → Option Nat
  | .serve e => e.tid?
  | .sample tid _ _ => some tid
  | .work tid _ _ => some tid

section Requests

variable [Field K] [LinearOrder K] [Transcendental K] {mesh : MeshConfig K}

/-- A step that no node takes part in leaves a request with its worker. -/
theorem agreement_unaided {i : Input K} {x : Shared K} {p : Point K} {next : Shared K × Point K}
    {tid : Nat} (hi : Unaided (.resume tid i) = true)
    (h : resume mesh.platform mesh.config i x p = some next)
    {calls : String → Option (CallStage K)} (hcalls : Agreement (some p) calls) :
    Agreement (some next.2) calls := by
  cases step_of_resume h with
  | unserved | stream | dispatch | execute | chunk | finish | abort | cancel => cases hi
  | unauthorized ha | notReady ha | noClient ha | call ha | unlimited ha =>
    cases ha <;> exact hcalls.follow rfl fun _ _ => trivial
  | ask | evaluate | allow | deny | limiterRaised | broken | close =>
    exact hcalls.follow rfl fun _ _ => trivial
  | depositRaised | answer | usageRaised | next => exact hcalls.follow rfl fun _ hp => hp

/-- A step of the server moves no other request. -/
theorem task_of_step {i j : IngressState K} {e : IngressEvent K}
    (h : mesh.ingress.step i e = some j) {tid : Nat} (htid : e.tid? ≠ some tid) :
    j.task tid = i.task tid := by
  obtain ⟨tid', r, rfl, -, rfl⟩ | ⟨tid', input, p, x, q, rfl, -, -, rfl⟩ |
    ⟨rate, x, rfl, -, rfl⟩ := mesh.ingress.step_cases h
  · exact i.task_move_of_ne (fun he => htid (congrArg some he.symm)) _ _
  · exact i.task_move_of_ne (fun he => htid (congrArg some he.symm)) _ _
  · rfl

theorem agreement_serve {i j : IngressState K} {e : IngressEvent K} (he : Unaided e = true)
    (h : mesh.ingress.step i e = some j) {tid : Nat} {calls : String → Option (CallStage K)}
    (hcalls : Agreement (i.task tid) calls) : Agreement (j.task tid) calls := by
  by_cases htid : e.tid? = some tid
  · obtain ⟨tid', r, rfl, hfree, rfl⟩ | ⟨tid', input, p, x, q, rfl, hp, hx, rfl⟩ |
      ⟨rate, x, rfl, -, rfl⟩ := mesh.ingress.step_cases h
    · obtain rfl := Option.some.inj htid
      rw [hfree] at hcalls
      rw [State.task_move_self]
      exact ⟨fun n _ => hcalls.elsewhere n (by simp), by rintro _ ⟨⟩ worker hw; cases hw⟩
    · obtain rfl := Option.some.inj htid
      rw [hp] at hcalls
      rw [State.task_move_self]
      exact agreement_unaided he hx hcalls
    · cases htid
  · rwa [task_of_step h htid]

/-- A request for which a worker has been sampled. -/
theorem resume_sample {i j : IngressState K} {tid draw : Nat}
    (h : mesh.ingress.step i (.resume tid (.sample draw)) = some j) :
    ∃ a q, i.task tid = some (.admitted a) ∧ j.task tid = some q ∧
      q.worker? = q.sent?.map Prod.snd ∧
      ∀ stage, (∃ job worker, q.sent? = some (job, worker)) → Untold stage → q.Suits stage := by
  obtain ⟨_, _, he, -⟩ | ⟨_, _, p, x, q, he, hp, hx, rfl⟩ | ⟨_, _, he, -⟩ :=
    mesh.ingress.step_cases h
  · cases he
  · cases he
    cases step_of_resume hx with
    | unauthorized ha | notReady ha | noClient ha | call ha | unlimited ha => cases ha
    | @unserved a =>
      exact ⟨a, _, hp, State.task_move_self .., rfl, fun _ _ _ => trivial⟩
    | @stream a => exact ⟨a, _, hp, State.task_move_self .., rfl, fun _ _ h => h⟩
    | @dispatch a => exact ⟨a, _, hp, State.task_move_self .., rfl, fun _ _ h => h⟩
  · cases he

/-- A call that is resumed, and its request, which may hear of it. -/
theorem agreement_work {i j : IngressState K} {tid : Nat} {p : Point K} {worker : Worker}
    (hp : i.task tid = some p) (hworker : p.worker? = some worker)
    {calls calls' : String → Option (CallStage K)} (hcalls : Agreement (i.task tid) calls)
    {signal : Counted.Signal String} (hpermits : p.permits signal = true) {stage : CallStage K}
    (hsettled : stage.Settled) {created : Int}
    (hear : mesh.hear i tid (hearing created p stage) = some j)
    (hstage : calls' worker.nodeId = some stage)
    (hothers : ∀ n, n ≠ worker.nodeId → calls' n = calls n) :
    Agreement (j.task tid) calls' := by
  have hsame : ∀ w ∈ (i.task tid).bind Point.worker?, w.nodeId = worker.nodeId := by
    intro w hw
    have hw : p.worker? = some w := by simpa [hp] using hw
    obtain rfl := Option.some.inj (hworker.symm.trans hw)
    rfl
  cases hhearing : hearing created p stage with
  | none =>
    obtain rfl : i = j := by simpa [MeshConfig.hear, hhearing] using hear
    have hsuits := Point.suits_of_silence hpermits hsettled hhearing
    rw [hp] at hcalls hsame ⊢
    exact hcalls.move hworker hsame hstage hsuits hothers
  | some input =>
    rw [hhearing] at hear
    have hstep : mesh.ingress.step i (.resume tid input) = some j := hear
    obtain ⟨_, _, he, -⟩ | ⟨_, _, p', x, q, he, hp', hx, rfl⟩ | ⟨_, _, he, -⟩ :=
      mesh.ingress.step_cases hstep
    · cases he
    · cases he
      obtain rfl := Option.some.inj (hp.symm.trans hp')
      rw [State.task_move_self]
      cases hears_of_hearing hhearing with
      | result | raised | aborted | finished | cancelled =>
        obtain ⟨rfl, rfl⟩ := Prod.mk.inj (Option.some.inj hx)
        exact hcalls.move hworker hsame hstage ⟨_, rfl⟩ hothers
      | @chunk a w progress chunk rest =>
        obtain ⟨rfl, rfl⟩ := Prod.mk.inj (Option.some.inj hx)
        cases rest with
        | ends => exact hsettled.elim
        | suspends => exact hcalls.move hworker hsame hstage trivial hothers
    · cases he

end Requests

/-! ## Every run -/

section Runs

variable [Field K] [LinearOrder K] [IsStrictOrderedRing K] [Transcendental K]
  {mesh : MeshConfig K}

/-- The clock of a call does not go back. -/
def MeshEvent.Timely : MeshEvent K → Prop
  | .sample _ _ c => Monotone c.clock
  | _ => True

/-- Nodes are under their own ids and their numbers are sound. -/
structure MeshConfig.Sound (mesh : MeshConfig K) : Prop where
  named : ∀ n node, mesh.nodes.get? n = some node → node.nodeId = n
  nodes : ∀ n node, mesh.nodes.get? n = some node → node.Sound

/-- The server and the nodes agree. -/
structure MeshConfig.Coherent (mesh : MeshConfig K) (m : Mesh K) : Prop where
  tally : ∀ n, ∃ T, Counted.Tally (m.calls n) T
  stages : ∀ n tid stage, (m.calls n).task tid = some stage →
    ∃ node, mesh.nodes.get? n = some node ∧ Obeys mesh.texts node stage
  requests : ∀ tid, Agreement (m.ingress.task tid) (m.callsOf tid)

omit [IsStrictOrderedRing K] [Transcendental K] in
theorem coherent_start (mesh : MeshConfig K) (x : Shared K) : mesh.Coherent (.start x) where
  tally n := ⟨∅, Counted.tally_start⟩
  stages n tid stage h := by cases h
  requests tid := ⟨fun n _ => rfl, fun p hp => by cases hp⟩

omit [IsStrictOrderedRing K] in
/-- A step is seen by no other request. -/
theorem MeshConfig.Moves.frame {m m' : Mesh K} {e : MeshEvent K} (h : mesh.Moves m e m')
    {tid : Nat} (htid : e.tid? ≠ some tid) :
    m'.ingress.task tid = m.ingress.task tid ∧ m'.callsOf tid = m.callsOf tid := by
  cases h with
  | serve _ hi => exact ⟨task_of_step hi htid, rfl⟩
  | unserved hi => exact ⟨task_of_step hi htid, rfl⟩
  | @send tid' draw c i job worker node hi =>
    have hne : ∀ n, ¬(tid = tid' ∧ n = worker.nodeId) := fun n hn =>
      htid (congrArg some hn.1.symm)
    exact ⟨task_of_step hi htid, funext fun n => by rw [callsOf_move, if_neg (hne n)]⟩
  | @work tid' signal created p worker node stage x q i _ _ _ _ _ _ hear =>
    have hne : ∀ n, ¬(tid = tid' ∧ n = worker.nodeId) := fun n hn =>
      htid (congrArg some hn.1.symm)
    refine ⟨?_, funext fun n => by rw [callsOf_move, if_neg (hne n)]⟩
    cases hhearing : hearing created p q with
    | none =>
      obtain rfl : m.ingress = i := by simpa [MeshConfig.hear, hhearing] using hear
      rfl
    | some input =>
      rw [hhearing] at hear
      have hstep : mesh.ingress.step m.ingress (.resume tid' input) = some i := hear
      exact task_of_step hstep htid

omit [IsStrictOrderedRing K] in
/-- A request and its calls stay in agreement. -/
theorem Agreement.step {m m' : Mesh K} {e : MeshEvent K} (hmoves : mesh.Moves m e m')
    (hT : ∀ n, ∃ T, Counted.Tally (m.calls n) T) {tid : Nat}
    (h : Agreement (m.ingress.task tid) (m.callsOf tid)) :
    Agreement (m'.ingress.task tid) (m'.callsOf tid) := by
  by_cases htid : e.tid? = some tid
  · cases hmoves with
    | serve hserve hi => exact agreement_serve hserve hi h
    | @unserved tid' draw c i hi hsent =>
      obtain rfl := Option.some.inj htid
      obtain ⟨a, q, hp, hq, hworker, -⟩ := resume_sample hi
      have hnone : q.worker? = none := by
        rw [hworker]
        simpa [hq] using hsent
      rw [hp] at h
      rw [hq]
      exact h.follow hnone fun _ _ => by
        cases q with
        | executing | streaming | sending | executed | served => cases hnone
        | received | resolving | limiting | admitted | refused | unserved => trivial
    | @send tid' draw c i job worker node hi hsent hnode hfree =>
      obtain rfl := Option.some.inj htid
      obtain ⟨a, q, hp, hq, hworker, hsuits⟩ := resume_sample hi
      have hsent : q.sent? = some (job, worker) := by simpa [hq] using hsent
      rw [hp] at h
      rw [hq]
      have huntold : Untold (.created (node.body mesh.texts (job, c)) : CallStage K) := trivial
      exact h.move (by rw [hworker, hsent]; rfl) (fun w hw => by cases hw)
        (by rw [callsOf_move, if_pos ⟨rfl, rfl⟩]) (hsuits _ ⟨job, worker, hsent⟩ huntold)
        fun n hn => by rw [callsOf_move, if_neg fun hsame => hn hsame.2]
    | @work tid' signal created p worker node stage x q i hp hworker hnode hpermits hstage hr
        hear =>
      obtain rfl := Option.some.inj htid
      obtain ⟨T, hT⟩ := hT worker.nodeId
      exact agreement_work hp hworker h hpermits
        (Counted.resume_settled hT.unlocked (hT.waits _ stage hstage) hr) hear
        (by rw [callsOf_move, if_pos ⟨rfl, rfl⟩])
        fun n hn => by rw [callsOf_move, if_neg fun hsame => hn hsame.2]
  · obtain ⟨htask, hcalls⟩ := hmoves.frame htid
    rwa [htask, hcalls]

/-- A step keeps the server and the nodes in agreement. -/
theorem MeshConfig.Coherent.step (hsound : mesh.Sound) {m m' : Mesh K} (h : mesh.Coherent m)
    {e : MeshEvent K} (htimely : e.Timely) (hstep : mesh.step m e = some m') :
    mesh.Coherent m' := by
  have hmoves := moves_of_step hstep
  refine ⟨?_, ?_, fun tid => (h.requests tid).step hmoves h.tally⟩
  · intro n
    cases hmoves with
    | serve | unserved => exact h.tally n
    | @send tid draw c i job worker node hi hsent hnode hfree =>
      by_cases hn : n = worker.nodeId
      · subst hn
        obtain ⟨T, hT⟩ := h.tally worker.nodeId
        exact ⟨T, by simpa using hT.spawn hfree _⟩
      · simpa [hn] using h.tally n
    | @work tid signal created p worker node stage x q i hp hworker hnode hpermits hstage hr =>
      by_cases hn : n = worker.nodeId
      · subst hn
        obtain ⟨T, hT⟩ := h.tally worker.nodeId
        exact ⟨_, by simpa using hT.move hstage hr⟩
      · simpa [hn] using h.tally n
  · intro n tid' stage' hstage'
    change m'.callsOf tid' n = some stage' at hstage'
    cases hmoves with
    | serve | unserved => exact h.stages n tid' stage' hstage'
    | @send tid draw c i job worker node hi hsent hnode hfree =>
      rw [callsOf_move] at hstage'
      split_ifs at hstage' with hself
      · obtain ⟨rfl, rfl⟩ := hself
        obtain rfl := Option.some.inj hstage'
        exact ⟨node, hnode, job, c, htimely, rfl⟩
      · exact h.stages n tid' stage' hstage'
    | @work tid signal created p worker node stage x q i hp hworker hnode hpermits hstage hr =>
      rw [callsOf_move] at hstage'
      split_ifs at hstage' with hself
      · obtain ⟨rfl, rfl⟩ := hself
        obtain rfl := Option.some.inj hstage'
        obtain ⟨T, hT⟩ := h.tally worker.nodeId
        obtain ⟨node', hnode', hobeys⟩ := h.stages _ _ _ hstage
        obtain rfl := Option.some.inj (hnode.symm.trans hnode')
        exact ⟨node, hnode, (hobeys.resume (hsound.nodes _ _ hnode) hT.unlocked
          (hT.count ▸ Int.natCast_nonneg _) (hT.waits _ _ hstage) hr).1⟩
      · exact h.stages n tid' stage' hstage'

/-- The server and the nodes agree in every run. -/
theorem coherent_run (hsound : mesh.Sound) {x : Shared K} {es : List (MeshEvent K)} {m : Mesh K}
    (hrun : Run.execAll mesh.step (.start x) es = some m) (htimely : ∀ e ∈ es, e.Timely) :
    mesh.Coherent m :=
  Run.execAll_induction mesh.step (P := fun es m => (∀ e ∈ es, e.Timely) → mesh.Coherent m)
    (fun _ => coherent_start mesh x)
    (fun _ _ _ _ _ ih hstep htimely => (ih fun e he => htimely e (List.mem_append_left _ he)).step
      hsound (htimely _ (List.mem_append_right _ (List.mem_singleton.mpr rfl))) hstep)
    es m hrun htimely

omit [IsStrictOrderedRing K] in
/-- A request that no step is for is not there and has no call. -/
theorem absent_of_run {x : Shared K} {es : List (MeshEvent K)} {m : Mesh K}
    (hrun : Run.execAll mesh.step (.start x) es = some m) {tid : Nat}
    (h : ∀ e ∈ es, e.tid? ≠ some tid) :
    m.ingress.task tid = none ∧ m.callsOf tid = fun _ => none := by
  refine Run.execAll_induction mesh.step (P := fun es m => (∀ e ∈ es, e.tid? ≠ some tid) →
    m.ingress.task tid = none ∧ m.callsOf tid = fun _ => none) (fun _ => ⟨rfl, rfl⟩) ?_ es m hrun h
  intro es m e m' _ ih hstep h
  obtain ⟨htask, hcalls⟩ := (MeshConfig.moves_of_step hstep).frame (h e (by simp))
  rw [htask, hcalls]
  exact ih fun e' he' => h e' (List.mem_append_left _ he')

/-! ## What the server is told -/

/-- What a request hears of its worker is the worker's own, measures nothing negative, and says the
number of the other calls. -/
def Input.Truthful (worker : Worker) (others : Nat) : Input K → Prop
  | .execute (.returned result _) =>
    result.nodeId = worker.nodeId ∧ 0 ≤ result.latencySec ∧ result.activeLoad = others
  | .chunk c _ => 0 ≤ c.elapsed ∧ c.activeLoad = some (others : Int)
  | _ => True

omit [IsStrictOrderedRing K] [Transcendental K] in
/-- A request hears what its call shows. -/
theorem Hears.truthful {created : Int} {p : Point K} {stage : CallStage K} {i : Input K}
    (h : Hears created p stage i) {worker : Worker} {count : Int}
    (hshows : Counted.Shows TrueChunk (TrueResult worker.nodeId) count stage) {others : Nat}
    (hcount : count = others + stage.weight) : i.Truthful worker others := by
  cases h with
  | @result a w r =>
    obtain ⟨f, ⟨hleft, hown⟩, hf⟩ := hshows
    obtain ⟨hid, hlatency⟩ := hown count r hf.symm
    refine ⟨hid, hlatency, (hleft count r hf.symm).trans ?_⟩
    simp [hcount, Counted.Stage.weight, Counted.Stage.InFlight]
  | @chunk a w progress chunk rest =>
    obtain ⟨out, ⟨hothers, htimed⟩, rfl⟩ := hshows
    refine ⟨htimed count, congrArg some ((hothers count).trans ?_)⟩
    simp [hcount, Counted.Stage.weight, Counted.Stage.InFlight]
  | raised | aborted | finished | cancelled => trivial

omit [Transcendental K] in
/-- The call that a request hears. -/
theorem MeshConfig.Coherent.truthful (hsound : mesh.Sound) {m : Mesh K} (h : mesh.Coherent m)
    {tid : Nat} {worker : Worker} {stage : CallStage K}
    (hstage : (m.calls worker.nodeId).task tid = some stage) {signal : Counted.Signal String}
    {r : Counted.Shared × CallStage K}
    (hr : Counted.resume signal (m.calls worker.nodeId).shared stage = some r) {created : Int}
    {p : Point K} {i : Input K} (hi : Hears created p r.2 i) :
    ∃ others : Finset Nat, (∀ tid', tid' ∈ others ↔ tid' ≠ tid ∧
      (m.calls worker.nodeId).InFlight tid') ∧ i.Truthful worker others.card := by
  obtain ⟨T, hT⟩ := h.tally worker.nodeId
  obtain ⟨node, hnode, hobeys⟩ := h.stages _ _ _ hstage
  have hwaits := hT.waits _ _ hstage
  have hshows := (hobeys.resume (hsound.nodes _ _ hnode) hT.unlocked
    (hT.count ▸ Int.natCast_nonneg _) hwaits hr).2
  rw [hsound.named _ _ hnode] at hshows
  have hcount := (Counted.resume_balanced hT.unlocked hwaits hr).count
  rw [← hT.card_erase hstage] at hcount
  refine ⟨T.erase tid, fun tid' => ?_, hi.truthful hshows hcount⟩
  rw [Finset.mem_erase, hT.mem]
  exact Iff.rfl

/-- The input of a request from its call, if it hears anything. -/
def Mesh.heard? (m : Mesh K) (tid : Nat) (signal : Counted.Signal String) (created : Int) :
    Option (Input K) :=
  (m.ingress.task tid).bind fun p => p.worker?.bind fun worker =>
    ((m.calls worker.nodeId).task tid).bind fun stage =>
      (Counted.resume signal (m.calls worker.nodeId).shared stage).bind fun next =>
        hearing created p next.2

/-- What a step of the mesh is to the server. -/
def Mesh.served? (m : Mesh K) : MeshEvent K → Option (IngressEvent K)
  | .serve e => some e
  | .sample tid draw _ => some (.resume tid (.sample draw))
  | .work tid signal created => (m.heard? tid signal created).map (.resume tid ·)

variable (mesh) in
omit [IsStrictOrderedRing K] in
/-- A mesh shows its server a run of the server alone. -/
def MeshConfig.ingressProjection : Run.Projection mesh.step (mesh.ingress.step (τ := Nat)) where
  view m := m.ingress
  label m e := m.served? e
  visible := by
    intro m e m' e' h hlabel
    cases moves_of_step h with
    | serve _ hi | unserved hi | send hi =>
      obtain rfl := Option.some.inj hlabel
      exact hi
    | @work tid signal created p worker node stage x q i hp hworker hnode hpermits hstage hr hear =>
      simp only [Mesh.served?, Mesh.heard?, hp, hworker, hstage, hr, Option.bind_some] at hlabel
      obtain ⟨input, hhearing, rfl⟩ := Option.map_eq_some_iff.mp hlabel
      rw [hhearing] at hear
      exact hear
  hidden := by
    intro m e m' h hlabel
    cases moves_of_step h with
    | serve _ hi | unserved hi | send hi => cases hlabel
    | @work tid signal created p worker node stage x q i hp hworker hnode hpermits hstage hr hear =>
      simp only [Mesh.served?, Mesh.heard?, hp, hworker, hstage, hr, Option.bind_some] at hlabel
      rw [Option.map_eq_none_iff.mp hlabel] at hear
      exact (Option.some.inj hear).symm

/-- A step that the server sees and that a node takes part in. -/
theorem MeshConfig.Coherent.truthful_of_served (hsound : mesh.Sound) {m m' : Mesh K}
    (h : mesh.Coherent m) {e : MeshEvent K} (hstep : mesh.step m e = some m')
    {tid : Nat} {i : Input K} (he : m.served? e = some (.resume tid i))
    (haided : Unaided (.resume tid i) = false) :
    (∃ draw c, e = .sample tid draw c ∧ i = .sample draw) ∨
      (∀ draw, i ≠ .sample draw) ∧
        ∃ worker, (m.ingress.task tid).bind Point.worker? = some worker ∧
          (∃ stage, (m.calls worker.nodeId).task tid = some stage ∧ ∀ exit, stage ≠ .ended exit) ∧
          ∃ others : Finset Nat, (∀ tid', tid' ∈ others ↔ tid' ≠ tid ∧
            (m.calls worker.nodeId).InFlight tid') ∧ i.Truthful worker others.card := by
  cases moves_of_step hstep with
  | serve hserve =>
    obtain rfl := Option.some.inj he
    rw [hserve] at haided
    cases haided
  | unserved | send =>
    obtain ⟨rfl, rfl⟩ := Event.resume.inj (Option.some.inj he)
    exact Or.inl ⟨_, _, rfl, rfl⟩
  | @work tid' signal created p worker node stage x q j hp hworker hnode hpermits hstage hr =>
    obtain ⟨input, hheard, hsame⟩ := Option.map_eq_some_iff.mp he
    obtain ⟨rfl, rfl⟩ := Event.resume.inj hsame
    simp only [Mesh.heard?, hp, hworker, hstage, hr, Option.bind_some] at hheard
    have hears := hears_of_hearing hheard
    refine Or.inr ⟨fun draw hdraw => ?_, worker, by simp [hp, hworker], ⟨stage, hstage, ?_⟩,
      h.truthful hsound hstage hr hears⟩
    · subst hdraw
      cases hears
    · rintro exit rfl
      cases signal <;> cases hr

end Runs

end StigmergicMesh.Server
