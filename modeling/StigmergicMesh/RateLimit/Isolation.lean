import StigmergicMesh.Library.Tasks
import StigmergicMesh.RateLimit.Rejection

/-!
# Tenants share the limiter and no quota

Calls of `check_rate_limits` as coroutines: each loads the script if no call has done so, and
suspends in every script execution of its two windows, so that the executions of many tenants
interleave. A call touches the two keys of its tenant (`resume_frame`), its answer depends on
these alone (`resume_local`), and the keys of different tenants differ whatever their ids are. So
the calls of other tenants can be left out of a run.
-/

namespace StigmergicMesh.RateLimit

/-- A call `check_rate_limits(tenant, prompt_token_cost)`. -/
structure Check where
  tenant : Tenant
  promptTokenCost : ℤ

/-- Redis and the limiter object; `scriptLoaded` stands for `_script_sha is not None`. -/
structure Shared where
  store : QuotaStore
  scriptLoaded : Bool

/-- Where a call of `_eval_window` waits. -/
inductive Stage where
  | ensureScript
  | evalsha
  | eval

/-- Where a call waits. In `window` the result of the RPM window is there once the TPM window is
evaluated. -/
inductive Point where
  | start (c : Check)
  | window (c : Check) (now : ℤ) (rpm : Option WindowResult) (stage : Stage)
  | returned (c : Check) (info : Info)
  | raised (c : Check)

/-- What a call learns when it resumes: its clock, the answer to `SCRIPT LOAD`, how an execution
of the script ended and when it ran on the server's clock. -/
inductive Input where
  | now (now : ℤ)
  | scriptLoad
  | execute (outcome : Evalsha) (clock : ℚ)

def Point.check : Point → Check
  | .start c => c
  | .window c _ _ _ => c
  | .returned c _ => c
  | .raised c => c

/-- The arguments of `_eval_window` for the RPM window, then for the TPM window. -/
structure WindowArgs where
  key : String
  maxLimit : ℤ
  cost : ℤ

def Check.windowArgs (c : Check) (rpm : Option WindowResult) : WindowArgs :=
  match rpm with
  | none => ⟨c.tenant.rpmKey, c.tenant.rpmLimit, 1⟩
  | some _ => ⟨c.tenant.tpmKey, c.tenant.tpmLimit, c.promptTokenCost⟩

/-- A window has been evaluated: go on with the TPM window, or build the answer. -/
def Check.evaluated (c : Check) (now : ℤ) (rpm : Option WindowResult) (result : WindowResult) :
    Point :=
  match rpm with
  | none => .window c now (some result) .ensureScript
  | some rpm => .returned c (buildInfo c.tenant rpm result)

/-- A failed `EVALSHA` falls back to `EVAL`, a failed `EVAL` raises. -/
def Check.failed (c : Check) (now : ℤ) (rpm : Option WindowResult) : Stage → Point
  | .eval => .raised c
  | _ => .window c now rpm .eval

/-- One execution of the script for a window, on the key as the server has it at `clock`. -/
def WindowArgs.execute (w : WindowArgs) (now : ℤ) (clock : ℚ) (store : QuotaStore) :
    Reply × Quota :=
  slidingWindow clock now windowSeconds w.maxLimit w.cost ((store w.key).live clock)

/-- The steps of `check_rate_limits` between its suspensions. -/
def resume : Input → Shared → Point → Option (Shared × Point)
  | .now now, x, .start c => some (x, .window c now none .ensureScript)
  | .scriptLoad, x, .window c now rpm .ensureScript =>
    some ({ x with scriptLoaded := true }, .window c now rpm .evalsha)
  | .execute outcome clock, x, .window c now rpm stage =>
    match stage with
    | .ensureScript => none
    | stage =>
      let w := c.windowArgs rpm
      let execution := w.execute now clock x.store
      let executed := { x with store := Function.update x.store w.key execution.2 }
      match outcome with
      | .replied => some (executed, c.evaluated now rpm execution.1.toResult)
      | .notExecuted => some (x, c.failed now rpm stage)
      | .replyLost => some (executed, c.failed now rpm stage)
  | _, _, _ => none

/-- The steps of `resume` by name. -/
inductive Step (x : Shared) : Input → Point → Shared → Point → Prop where
  | clock {now c} : Step x (.now now) (.start c) x (.window c now none .ensureScript)
  | load {c now rpm} :
      Step x .scriptLoad (.window c now rpm .ensureScript) { x with scriptLoaded := true }
        (.window c now rpm .evalsha)
  | replied {clock c now rpm stage} : stage ≠ .ensureScript →
      Step x (.execute .replied clock) (.window c now rpm stage)
        { x with
          store := Function.update x.store (c.windowArgs rpm).key
            ((c.windowArgs rpm).execute now clock x.store).2 }
        (c.evaluated now rpm ((c.windowArgs rpm).execute now clock x.store).1.toResult)
  | notExecuted {clock c now rpm stage} : stage ≠ .ensureScript →
      Step x (.execute .notExecuted clock) (.window c now rpm stage) x (c.failed now rpm stage)
  | replyLost {clock c now rpm stage} : stage ≠ .ensureScript →
      Step x (.execute .replyLost clock) (.window c now rpm stage)
        { x with
          store := Function.update x.store (c.windowArgs rpm).key
            ((c.windowArgs rpm).execute now clock x.store).2 }
        (c.failed now rpm stage)

theorem resume_iff {i : Input} {x y : Shared} {p q : Point} :
    resume i x p = some (y, q) ↔ Step x i p y q := by
  constructor
  · intro h
    cases p with
    | start c =>
      cases i <;> cases h
      exact .clock
    | window c now rpm stage =>
      cases i with
      | now n => cases h
      | scriptLoad =>
        cases stage <;> cases h
        exact .load
      | execute outcome clock =>
        cases stage with
        | ensureScript => cases h
        | evalsha | eval =>
          cases outcome <;> cases h
          · exact .replied nofun
          · exact .notExecuted nofun
          · exact .replyLost nofun
    | returned c info => cases i <;> cases h
    | raised c => cases i <;> cases h
  · intro h
    cases h with
    | clock => rfl
    | load => rfl
    | @replied clock c now rpm stage hstage => cases stage <;> first | rfl | exact absurd rfl hstage
    | @notExecuted clock c now rpm stage hstage =>
      cases stage <;> first | rfl | exact absurd rfl hstage
    | @replyLost clock c now rpm stage hstage =>
      cases stage <;> first | rfl | exact absurd rfl hstage

/-- Nothing but the calls changes the shared state: keys expire in `WindowArgs.execute`. -/
def limiter : Tasks.Program Shared Check Input Empty Point where
  entry := .start
  resume := resume
  external := fun e => e.elim

abbrev LimiterEvent := Tasks.Event Nat Check Input Empty

abbrev LimiterState := Tasks.State Nat Shared Point

/-- The steps of the calls with the given tenant id in a run. -/
def ofTenant (tenantId : String) (es : List LimiterEvent) (e : LimiterEvent) : Bool :=
  match e.tid?.bind (Tasks.callOf es) with
  | none => false
  | some c => c.tenant.tenantId = tenantId

/-! ## A call with nothing in between -/

/-- The answers of one window: the script is known, `EVALSHA` ends in the given way, and `EVAL`
replies if it is needed. -/
def windowInputs (outcome : Evalsha) (clock : ℚ) : List Input :=
  match outcome with
  | .replied => [.scriptLoad, .execute .replied clock]
  | .notExecuted => [.scriptLoad, .execute .notExecuted clock, .execute .replied clock]
  | .replyLost => [.scriptLoad, .execute .replyLost clock, .execute .replied clock]

/-- The key has not expired. -/
def Quota.Alive (q : Quota) (clock : ℚ) : Prop := q.live clock = q

theorem Quota.Alive.slidingWindow {q : Quota} {clock : ℚ} (h : q.Alive clock) (now : ℚ)
    (maxLimit cost : ℚ) :
    (slidingWindow clock now windowSeconds maxLimit cost q).2.Alive clock := by
  by_cases hfits : q.Fits now windowSeconds maxLimit cost
  · rw [(slidingWindow_of_fits clock hfits).2]
    have hlater : ¬clock + (windowSeconds : ℚ) * 2 ≤ clock := by norm_num [windowSeconds]
    simp [Alive, live, record, hlater]
  · rwa [(slidingWindow_of_not_fits clock hfits).2]

theorem WindowArgs.execute_of_alive (w : WindowArgs) (now : ℤ) {clock : ℚ} {store : QuotaStore}
    (h : (store w.key).Alive clock) :
    w.execute now clock store =
      slidingWindow clock now windowSeconds w.maxLimit w.cost (store w.key) := by
  rw [execute, h]

theorem run_window (x : Shared) (c : Check) (now : ℤ) (rpm : Option WindowResult)
    (outcome : Evalsha) {clock : ℚ} (halive : (x.store (c.windowArgs rpm).key).Alive clock) :
    let w := c.windowArgs rpm
    let result := evalWindow outcome clock x.store w.key now windowSeconds w.maxLimit w.cost
    Run.execAll limiter.alone (x, .window c now rpm .ensureScript) (windowInputs outcome clock) =
      some (⟨result.2, true⟩, c.evaluated now rpm result.1) := by
  have hfirst := (c.windowArgs rpm).execute_of_alive now halive
  cases outcome with
  | replied =>
    simp [windowInputs, Tasks.Program.alone, limiter, resume, hfirst, evalWindow]
  | notExecuted =>
    simp [windowInputs, Tasks.Program.alone, limiter, resume, hfirst, evalWindow, Check.failed]
  | replyLost =>
    -- What the lost execution left is still alive when `EVAL` finds it.
    set q := (slidingWindow clock now windowSeconds (c.windowArgs rpm).maxLimit
      (c.windowArgs rpm).cost (x.store (c.windowArgs rpm).key)).2 with hq
    have hagain : q.Alive clock := halive.slidingWindow now _ _
    have hsecond : (c.windowArgs rpm).execute now clock
        (Function.update x.store (c.windowArgs rpm).key q) =
          slidingWindow clock now windowSeconds (c.windowArgs rpm).maxLimit
            (c.windowArgs rpm).cost q := by
      rw [WindowArgs.execute_of_alive _ _ (by simpa using hagain), Function.update_self]
    simp [windowInputs, Tasks.Program.alone, limiter, resume, hfirst, ← hq, hsecond, evalWindow,
      Check.failed]

/-- A call that nothing interrupts is `check_rate_limits`. -/
theorem run_check {s : LimiterState} {tid : Nat} (hfree : s.task tid = none) (c : Check)
    (rpmOutcome tpmOutcome : Evalsha) {clock : ℚ} (now : ℤ)
    (hrpm : (s.shared.store c.tenant.rpmKey).Alive clock)
    (htpm : (s.shared.store c.tenant.tpmKey).Alive clock) :
    let result := checkRateLimits rpmOutcome tpmOutcome clock s.shared.store c.tenant now
      c.promptTokenCost
    Run.execAll limiter.step s (.spawn tid c ::
        (.now now :: (windowInputs rpmOutcome clock ++ windowInputs tpmOutcome clock)).map
          (.resume tid)) =
      some (s.move tid ⟨result.2, true⟩ (.returned c result.1)) := by
  set rpmResult := evalWindow rpmOutcome clock s.shared.store c.tenant.rpmKey now windowSeconds
    c.tenant.rpmLimit 1 with hresult
  have hother : (rpmResult.2 c.tenant.tpmKey).Alive clock := by
    have hframe := (evalWindow_spec rpmOutcome clock s.shared.store c.tenant.rpmKey now
      windowSeconds c.tenant.rpmLimit 1).2.2
    rwa [hresult, hframe _ c.tenant.rpmKey_ne_tpmKey.symm]
  have hfirst := run_window s.shared c now none rpmOutcome hrpm
  have hsecond := run_window ⟨rpmResult.2, true⟩ c now (some rpmResult.1) tpmOutcome hother
  have hnow : limiter.alone (s.shared, limiter.entry c) (.now now) =
      some (s.shared, .window c now none .ensureScript) := rfl
  rw [limiter.execAll_alone hfree, Run.execAll_cons, hnow, Option.bind_some, Run.execAll_append,
    hfirst, Option.bind_some]
  exact congrArg (Option.map _) hsecond

/-! ## The keys of a tenant -/

/-- The key is one of the two that the limiter keeps for a tenant id. -/
def IsKeyOf (tenantId key : String) : Prop :=
  key = "ratelimit:" ++ tenantId ++ ":rpm" ∨ key = "ratelimit:" ++ tenantId ++ ":tpm"

theorem Check.isKeyOf_windowArgs (c : Check) (rpm : Option WindowResult) :
    IsKeyOf c.tenant.tenantId (c.windowArgs rpm).key := by
  cases rpm with
  | none => exact Or.inl rfl
  | some r => exact Or.inr rfl

/-- The last four characters tell the dimensions apart, what is before them the tenants. -/
theorem append_dimension_ne (a b : String) : a ++ ":rpm" ≠ b ++ ":tpm" := by
  intro h
  have hlist : a.toList ++ [':', 'r', 'p', 'm'] = b.toList ++ [':', 't', 'p', 'm'] := by
    simpa using congrArg String.toList h
  have hdimension := (List.append_inj' hlist rfl).2
  simp at hdimension

theorem IsKeyOf.unique {a b key : String} (ha : IsKeyOf a key) (hb : IsKeyOf b key) : a = b := by
  rcases ha with rfl | rfl <;> rcases hb with hb | hb
  · simpa using hb
  · exact absurd hb (append_dimension_ne _ _)
  · exact absurd hb.symm (append_dimension_ne _ _)
  · simpa using hb

/-! ## What a step touches -/

/-- The two states hold the same quotas for a tenant id. -/
def SameQuotas (tenantId : String) (x y : Shared) : Prop :=
  ∀ key, IsKeyOf tenantId key → x.store key = y.store key

theorem Check.check_evaluated (c : Check) (now : ℤ) (rpm : Option WindowResult)
    (result : WindowResult) : (c.evaluated now rpm result).check = c := by
  cases rpm <;> rfl

theorem Check.check_failed (c : Check) (now : ℤ) (rpm : Option WindowResult) (stage : Stage) :
    (c.failed now rpm stage).check = c := by
  cases stage <;> rfl

theorem resume_check {i : Input} {x y : Shared} {p q : Point} (h : resume i x p = some (y, q)) :
    q.check = p.check := by
  cases resume_iff.mp h with
  | clock => rfl
  | load => rfl
  | @replied clock c => exact c.check_evaluated ..
  | @notExecuted clock c => exact c.check_failed ..
  | @replyLost clock c => exact c.check_failed ..

/-- An execution for a call leaves the keys of the other tenants as they are. -/
theorem Check.sameQuotas_update (c : Check) (rpm : Option WindowResult) {tenantId : String}
    (hne : c.tenant.tenantId ≠ tenantId) (x : Shared) (quota : Quota) :
    SameQuotas tenantId x
      { x with store := Function.update x.store (c.windowArgs rpm).key quota } := by
  intro key hkey
  have hother : key ≠ (c.windowArgs rpm).key := by
    rintro rfl
    exact hne ((c.isKeyOf_windowArgs rpm).unique hkey)
  simp [hother]

/-- A step leaves the keys of the other tenants as they are. -/
theorem resume_frame {i : Input} {x y : Shared} {p q : Point} (h : resume i x p = some (y, q))
    {tenantId : String} (hne : p.check.tenant.tenantId ≠ tenantId) : SameQuotas tenantId x y := by
  cases resume_iff.mp h with
  | clock => exact fun _ _ => rfl
  | load => exact fun _ _ => rfl
  | @replied clock c now rpm => exact c.sameQuotas_update rpm hne x _
  | notExecuted => exact fun _ _ => rfl
  | @replyLost clock c now rpm => exact c.sameQuotas_update rpm hne x _

theorem SameQuotas.update {tenantId : String} {x y : Shared} (h : SameQuotas tenantId x y)
    (key : String) (quota : Quota) :
    SameQuotas tenantId { x with store := Function.update x.store key quota }
      { y with store := Function.update y.store key quota } := by
  intro other hother
  by_cases hk : other = key
  · subst hk
    simp
  · simpa [hk] using h other hother

/-- An execution for a call depends on the quotas of its tenant alone. -/
theorem SameQuotas.execute {x y : Shared} {c : Check} (h : SameQuotas c.tenant.tenantId x y)
    (rpm : Option WindowResult) (now : ℤ) (clock : ℚ) :
    (c.windowArgs rpm).execute now clock x.store =
      (c.windowArgs rpm).execute now clock y.store := by
  simp only [WindowArgs.execute, h _ (c.isKeyOf_windowArgs rpm)]

/-- From states with the same quotas for its tenant a call makes the same step. -/
theorem resume_local {i : Input} {x y x' : Shared} {p q : Point}
    (h : resume i x p = some (y, q)) (hsame : SameQuotas p.check.tenant.tenantId x x') :
    ∃ y', resume i x' p = some (y', q) ∧ SameQuotas p.check.tenant.tenantId y y' := by
  cases resume_iff.mp h with
  | clock => exact ⟨_, rfl, hsame⟩
  | load => exact ⟨_, rfl, hsame⟩
  | @replied clock c now rpm stage hstage =>
    rw [SameQuotas.execute (c := c) hsame rpm now clock]
    exact ⟨_, resume_iff.mpr (.replied hstage), hsame.update _ _⟩
  | notExecuted hstage => exact ⟨_, resume_iff.mpr (.notExecuted hstage), hsame⟩
  | @replyLost clock c now rpm stage hstage =>
    rw [SameQuotas.execute (c := c) hsame rpm now clock]
    exact ⟨_, resume_iff.mpr (.replyLost hstage), hsame.update _ _⟩

/-! ## Leaving the other tenants out -/

/-- A run and the run of one tenant's calls alone: these calls are at the same points, and the
tenant's quotas are the same. -/
structure Agree (tenantId : String) (es : List LimiterEvent) (s t : LimiterState) : Prop where
  quotas : SameQuotas tenantId s.shared t.shared
  points : ∀ tid c, Tasks.callOf es tid = some c → c.tenant.tenantId = tenantId →
    t.task tid = s.task tid
  called : ∀ tid p, s.task tid = some p → Tasks.callOf es tid = some p.check

theorem Agree.called_move {tenantId : String} {es : List LimiterEvent} {s t : LimiterState}
    (h : Agree tenantId es s t) {tid : Nat} {q : Point}
    (hc : Tasks.callOf es tid = some q.check) (x : Shared) :
    ∀ tid' p, (s.move tid x q).task tid' = some p → Tasks.callOf es tid' = some p.check := by
  intro tid' p hp
  by_cases hne : tid' = tid
  · subst hne
    obtain rfl : q = p := by simpa using hp
    exact hc
  · rw [s.task_move_of_ne hne] at hp
    exact h.called tid' p hp

/-- The same step on both sides. -/
theorem Agree.move_both {tenantId : String} {es : List LimiterEvent} {s t : LimiterState}
    (h : Agree tenantId es s t) {tid : Nat} {q : Point}
    (hc : Tasks.callOf es tid = some q.check) {x y : Shared} (hxy : SameQuotas tenantId x y) :
    Agree tenantId es (s.move tid x q) (t.move tid y q) := by
  refine ⟨hxy, fun tid' c' hc' hid' => ?_, h.called_move hc x⟩
  by_cases hne : tid' = tid
  · subst hne
    simp
  · rw [t.task_move_of_ne hne, s.task_move_of_ne hne]
    exact h.points tid' c' hc' hid'

/-- A step of another tenant's call on the left side only. -/
theorem Agree.move_left {tenantId : String} {es : List LimiterEvent} {s t : LimiterState}
    (h : Agree tenantId es s t) {tid : Nat} {q : Point}
    (hc : Tasks.callOf es tid = some q.check) (hid : q.check.tenant.tenantId ≠ tenantId)
    {x : Shared} (hx : SameQuotas tenantId s.shared x) :
    Agree tenantId es (s.move tid x q) t := by
  refine ⟨fun key hkey => (hx key hkey).symm.trans (h.quotas key hkey), fun tid' c' hc' hid' => ?_,
    h.called_move hc x⟩
  have hne : tid' ≠ tid := by
    rintro rfl
    rw [hc] at hc'
    cases hc'
    exact hid hid'
  rw [s.task_move_of_ne hne]
  exact h.points tid' c' hc' hid'

theorem ofTenant_of_callOf {tenantId : String} {es : List LimiterEvent} {e : LimiterEvent}
    {tid : Nat} {c : Check} (he : e.tid? = some tid) (hc : Tasks.callOf es tid = some c) :
    ofTenant tenantId es e = decide (c.tenant.tenantId = tenantId) := by
  simp [ofTenant, he, hc]

/-- A step of one of the tenant's calls is made on both sides, any other on the left only. -/
theorem Agree.step {tenantId : String} {es : List LimiterEvent} {s s' t : LimiterState}
    {e : LimiterEvent} (hspawn : ∀ tid c, e = .spawn tid c → Tasks.callOf es tid = some c)
    (h : Agree tenantId es s t) (hstep : limiter.step s e = some s') :
    (ofTenant tenantId es e = true → ∃ t', limiter.step t e = some t' ∧ Agree tenantId es s' t') ∧
      (ofTenant tenantId es e = false → Agree tenantId es s' t) := by
  obtain ⟨tid, c, rfl, hs, rfl⟩ | ⟨tid, input, p, x, q, rfl, hp, hx, rfl⟩ | ⟨e, -⟩ :=
    limiter.step_cases hstep
  · have hc := hspawn tid c rfl
    rw [ofTenant_of_callOf rfl hc, decide_eq_true_eq, decide_eq_false_iff_not]
    constructor
    · intro hid
      have ht : t.task tid = none := (h.points tid c hc hid).trans hs
      exact ⟨_, by simp only [Tasks.Program.step, ht], h.move_both hc h.quotas⟩
    · intro hid
      exact h.move_left (q := .start c) hc hid fun _ _ => rfl
  · have hc := h.called tid p hp
    have hcheck : q.check = p.check := resume_check hx
    rw [ofTenant_of_callOf rfl hc, decide_eq_true_eq, decide_eq_false_iff_not]
    constructor
    · intro hid
      have ht : t.task tid = some p := (h.points tid _ hc hid).trans hp
      subst hid
      obtain ⟨y, hy, hsame⟩ := resume_local hx h.quotas
      refine ⟨t.move tid y q, ?_, h.move_both (hcheck ▸ hc) hsame⟩
      simp [Tasks.Program.step, ht, limiter, hy]
    · intro hid
      exact h.move_left (hcheck ▸ hc) (hcheck ▸ hid) (resume_frame hx hid)
  · exact e.elim

/-- In every run the calls of a tenant get the answers they get in the run without the calls of
the other tenants. -/
theorem tenant_isolation (x : Shared) (tenantId : String) (es : List LimiterEvent)
    (s : LimiterState) (hrun : Run.execAll limiter.step (.start x) es = some s) :
    ∃ t, Run.execAll limiter.step (.start x) (es.filter (ofTenant tenantId es)) = some t ∧
      ∀ tid c, Tasks.callOf es tid = some c → c.tenant.tenantId = tenantId →
        t.task tid = s.task tid := by
  have hspawn : ∀ e ∈ es, ∀ tid c, e = .spawn tid c → Tasks.callOf es tid = some c := by
    rintro e he tid c rfl
    exact limiter.callOf_of_mem hrun he
  have hstart : Agree tenantId es (.start x) (.start x) :=
    ⟨fun _ _ => rfl, fun _ _ _ _ => rfl, fun tid p hp => by cases hp⟩
  obtain ⟨t, ht, hagree⟩ := Run.execAll_filter limiter.step (ofTenant tenantId es)
    (R := Agree tenantId es)
    (fun e he hmine s s' t hR hs => (hR.step (hspawn e he) hs).1 hmine)
    (fun e he hother s s' t hR hs => (hR.step (hspawn e he) hs).2 hother) hstart hrun
  exact ⟨t, ht, hagree.points⟩

/-- Two tenants, one of which has the other's RPM key for a prefix of its own. -/
def overlappingIds : List LimiterEvent :=
  [.spawn 0 ⟨⟨"a", 1, 10⟩, 1⟩, .spawn 1 ⟨⟨"a:rpm", 1, 10⟩, 1⟩, .resume 1 (.now 120),
    .resume 0 (.now 120), .resume 1 .scriptLoad, .resume 0 .scriptLoad,
    .resume 1 (.execute .replyLost 120), .resume 0 (.execute .replied 120)]

theorem tenant_isolation_overlappingIds :
    ∃ s t, Run.execAll limiter.step (.start ⟨fun _ => Quota.empty, false⟩) overlappingIds = some s ∧
      Run.execAll limiter.step (.start ⟨fun _ => Quota.empty, false⟩)
        (overlappingIds.filter (ofTenant "a" overlappingIds)) = some t ∧
      t.task 0 = s.task 0 := by
  obtain ⟨t, ht, hsame⟩ := tenant_isolation _ "a" overlappingIds _ rfl
  exact ⟨_, t, rfl, ht, hsame 0 _ rfl rfl⟩

end StigmergicMesh.RateLimit
