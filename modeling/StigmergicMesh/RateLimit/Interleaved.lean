import StigmergicMesh.Library.Accounts
import StigmergicMesh.RateLimit.Headers
import StigmergicMesh.RateLimit.Isolation

/-!
# What interleaved calls are charged

The executions of many calls interleave on a key, each with the limit its call brings and with a
time read before the executions of others. The key expires on the clock of the server, and a lost
reply charges a call twice. A bucket of a key holds at least what the calls that were admitted in
it were charged, for as long as an execution can belong to the bucket (`Quota.Charged`); so what
they were charged together stays within the largest limit among them.
-/

namespace StigmergicMesh.RateLimit

open Ledger Tasks

/-! ## One key -/

/-- Executions ran at the times `past`, and `amount` was charged in bucket `b`: an execution that
belongs to the bucket finds the charge. -/
structure Quota.Charged (q : Quota) (past : List ℚ) (b : ℤ) (amount : ℚ) : Prop where
  nonneg : ∀ d, 0 ≤ q.value d
  kept : ∀ later, (∀ c ∈ past, c ≤ later) → later < (b + 2) * windowSeconds →
    amount ≤ (q.live later).value b
  /-- Nothing is charged in a bucket before it begins. -/
  early : (∀ c ∈ past, c < b * windowSeconds) → amount ≤ 0

/-- An execution belongs to bucket `b` of its call's time: the clock of the server has reached the
bucket, and is not two buckets ahead. -/
def Timely (clock : ℚ) (b : ℤ) : Prop :=
  b * windowSeconds ≤ clock ∧ clock < (b + 2) * windowSeconds

instance (clock : ℚ) (b : ℤ) : Decidable (Timely clock b) := instDecidableAnd

theorem currentBucket_windowSeconds (now : ℤ) :
    currentBucket now windowSeconds = now / windowSeconds :=
  currentBucket_intCast (by decide) now

theorem Quota.nonneg_live {q : Quota} (h : ∀ d, 0 ≤ q.value d) (clock : ℚ) (d : ℤ) :
    0 ≤ (q.live clock).value d := by
  cases hdeadline : q.expireAt with
  | none => simpa [live, hdeadline] using h d
  | some deadline =>
    by_cases hgone : deadline ≤ clock
    · simp [live, hdeadline, hgone, empty, value]
    · simpa [live, hdeadline, hgone] using h d

/-- The script counts the current bucket in full. -/
theorem Quota.value_le_weighted {q : Quota} (h : ∀ d, 0 ≤ q.value d) (now : ℤ) :
    q.value (now / windowSeconds) ≤ q.weighted now windowSeconds := by
  have hpositive : (0 : ℚ) < windowSeconds := by decide +kernel
  have hbucket := inBucket_currentBucket (now : ℚ) hpositive
  have hfraction : fraction now windowSeconds < 1 := (hbucket.fraction_mem hpositive).2
  have hprevious : 0 ≤ q.value (currentBucket now windowSeconds - 1) *
      (1 - fraction now windowSeconds) := mul_nonneg (h _) (by linarith)
  rw [Quota.weighted, ← currentBucket_windowSeconds]
  linarith

namespace Quota.Charged

variable {q : Quota} {past : List ℚ} {b : ℤ} {amount : ℚ}

theorem mono (h : q.Charged past b amount) {less : ℚ} (hle : less ≤ amount) {more : List ℚ}
    (hpast : past ⊆ more) : q.Charged more b less where
  nonneg := h.nonneg
  kept later hlater hopen :=
    hle.trans (h.kept later (fun c hc => hlater c (hpast hc)) hopen)
  early hbefore := hle.trans (h.early fun c hc => hbefore c (hpast hc))

/-- What is left of the key at the time of the next execution. -/
theorem live (h : q.Charged past b amount) {clock : ℚ} (hclock : ∀ c ∈ past, c ≤ clock) :
    (q.live clock).Charged (past ++ [clock]) b amount where
  nonneg := nonneg_live h.nonneg clock
  kept later hlater hopen := by
    have hle : clock ≤ later := hlater clock (by simp)
    rw [live_live q hle]
    exact h.kept later (fun c hc => (hclock c hc).trans hle) hopen
  early hbefore := h.early fun c hc => hbefore c (List.mem_append_left _ hc)

/-- A cost that is recorded in a bucket is charged in it, and leaves the others as they are. -/
theorem record (h : q.Charged past b amount) {clock : ℚ} (hclock : clock ∈ past)
    (hlast : ∀ c ∈ past, c ≤ clock) (hlive : q.live clock = q) {now cost : ℤ} (hcost : 0 ≤ cost)
    (htimely : Timely clock (now / windowSeconds)) :
    (q.record clock now windowSeconds cost).Charged past b
      (amount + if now / windowSeconds = b then (cost : ℚ) else 0) := by
  have hcost' : (0 : ℚ) ≤ cost := by exact_mod_cast hcost
  have hvalue : ∀ d, (q.record clock now windowSeconds cost).value d =
      q.value d + if now / windowSeconds = d then (cost : ℚ) else 0 := by
    intro d
    rw [← currentBucket_windowSeconds]
    by_cases hd : currentBucket now windowSeconds = d
    · subst hd
      simp
    · simp [q.value_record_of_ne _ _ _ _ (Ne.symm hd), hd]
  refine ⟨fun d => ?_, fun later hlater hopen => ?_, fun hbefore => ?_⟩
  · rw [hvalue]
    have := h.nonneg d
    split <;> linarith
  · by_cases halive : later < clock + windowSeconds * 2
    · have hle : clock ≤ later := hlater clock hclock
      have hkept := h.kept clock hlast (hle.trans_lt hopen)
      rw [live_record q _ _ halive, hvalue]
      rw [hlive] at hkept
      linarith
    · -- The key is gone, but then the bucket had not begun when it was last written.
      have hearly : clock < b * windowSeconds := by linarith
      have hnone := h.early fun c hc => (hlast c hc).trans_lt hearly
      have hother : now / windowSeconds ≠ b := by
        rintro rfl
        exact absurd htimely.1 (not_le.mpr hearly)
      rw [if_neg hother, add_zero]
      exact hnone.trans (nonneg_live (fun d => (hvalue d).symm ▸ by
        have := h.nonneg d
        split <;> linarith) later b)
  · have hother : now / windowSeconds ≠ b := by
      rintro rfl
      exact absurd htimely.1 (not_le.mpr (hbefore clock hclock))
    rw [if_neg hother, add_zero]
    exact h.early hbefore

/-- One execution: it charges its bucket if it allows the request, and then within the limit. -/
theorem execute (h : q.Charged past b amount) {clock : ℚ} (hclock : ∀ c ∈ past, c ≤ clock)
    {now cost : ℤ} (hcost : 0 ≤ cost) (maxLimit : ℤ)
    (htimely : Timely clock (now / windowSeconds)) :
    let result := slidingWindow clock now windowSeconds maxLimit cost (q.live clock)
    result.2.Charged (past ++ [clock]) b
        (amount + if result.1.allowed ∧ now / windowSeconds = b then (cost : ℚ) else 0) ∧
      (result.1.allowed = true → now / windowSeconds = b → amount + cost ≤ maxLimit) := by
  have hlive := h.live hclock
  by_cases hfits : (q.live clock).Fits now windowSeconds maxLimit cost
  · obtain ⟨hallowed, hstored⟩ := slidingWindow_of_fits clock hfits
    have hlast : ∀ c ∈ past ++ [clock], c ≤ clock := by
      simpa [or_imp, forall_and] using hclock
    simp only [hallowed, hstored, true_and, forall_const]
    refine ⟨hlive.record (by simp) hlast (q.live_live le_rfl) hcost htimely, ?_⟩
    rintro rfl
    have hkept := h.kept clock hclock htimely.2
    have hweighted := value_le_weighted hlive.nonneg now
    have hfits : (q.live clock).weighted now windowSeconds + cost ≤ maxLimit := hfits
    linarith
  · obtain ⟨hdenied, hstored⟩ := slidingWindow_of_not_fits clock hfits
    simpa [hdenied, hstored] using hlive

end Quota.Charged

/-! ## The two windows of a call -/

/-- The windows of `check_rate_limits`, in the order in which it evaluates them. -/
inductive Window where
  | rpm
  | tpm

/-- The key of a tenant id for a window. -/
def keyOf (tenantId : String) : Window → String
  | .rpm => "ratelimit:" ++ tenantId ++ ":rpm"
  | .tpm => "ratelimit:" ++ tenantId ++ ":tpm"

namespace Check

def maxLimit (c : Check) : Window → ℤ
  | .rpm => c.tenant.rpmLimit
  | .tpm => c.tenant.tpmLimit

def cost (c : Check) : Window → ℤ
  | .rpm => 1
  | .tpm => c.promptTokenCost

end Check

/-- The window that a call is at, by the result that it has. -/
def windowAt : Option WindowResult → Window
  | none => .rpm
  | some _ => .tpm

theorem Check.windowArgs_eq (c : Check) (rpm : Option WindowResult) :
    c.windowArgs rpm = ⟨keyOf c.tenant.tenantId (windowAt rpm), c.maxLimit (windowAt rpm),
      c.cost (windowAt rpm)⟩ := by
  cases rpm <;> rfl

theorem isKeyOf_keyOf (tenantId : String) (w : Window) : IsKeyOf tenantId (keyOf tenantId w) := by
  cases w with
  | rpm => exact Or.inl rfl
  | tpm => exact Or.inr rfl

/-- The keys tell the tenant ids and the windows apart. -/
theorem keyOf_inj {a b : String} {v w : Window} : keyOf a v = keyOf b w ↔ a = b ∧ v = w := by
  constructor
  · intro h
    obtain rfl : a = b := (isKeyOf_keyOf a v).unique (h ▸ isKeyOf_keyOf b w)
    refine ⟨rfl, ?_⟩
    cases v with
    | rpm =>
      cases w with
      | rpm => rfl
      | tpm => exact absurd h (append_dimension_ne _ _)
    | tpm =>
      cases w with
      | rpm => exact absurd h.symm (append_dimension_ne _ _)
      | tpm => rfl
  · rintro ⟨rfl, rfl⟩
    rfl

/-- The call is known to have passed the window. -/
def Point.passed (w : Window) : Point → Bool
  | .window _ _ (some rpm) _ => match w with
    | .rpm => rpm.allowed
    | .tpm => false
  | .returned _ info => match w with
    | .rpm => info.rpm.allowed
    | .tpm => info.tpm.allowed
  | _ => false

theorem Check.passed_evaluated (c : Check) (now : ℤ) (rpm : Option WindowResult)
    (stage : Stage) (result : WindowResult) (w : Window) :
    (c.evaluated now rpm result).passed w = true ↔
      (Point.window c now rpm stage).passed w = true ∨
        windowAt rpm = w ∧ result.allowed = true := by
  cases rpm <;> cases w <;> simp [evaluated, Point.passed, windowAt, buildInfo]

theorem Check.passed_failed (c : Check) (now : ℤ) (rpm : Option WindowResult) (stage : Stage)
    (w : Window) (h : (c.failed now rpm stage).passed w = true) :
    (Point.window c now rpm stage).passed w = true := by
  cases stage with
  | eval => cases h
  | ensureScript | evalsha => cases rpm <;> exact h

/-- The time a call has read. -/
def nowOf (es : List LimiterEvent) (tid : Nat) : Option ℤ :=
  es.findSome? fun
    | .resume tid' (.now now) => if tid' = tid then some now else none
    | _ => none

/-- The times of the server's clock at which the script was executed. -/
def clocks (es : List LimiterEvent) : List ℚ :=
  es.filterMap fun
    | .resume _ (.execute outcome clock) =>
      match outcome with
      | .notExecuted => none
      | _ => some clock
    | _ => none

/-- What a call of the tenant was charged in bucket `b` of the window, as far as it knows. -/
def chargeOf (tenantId : String) (w : Window) (b : ℤ) (now : Option ℤ) (p : Point) : ℤ :=
  if p.check.tenant.tenantId = tenantId ∧ p.passed w = true ∧ now.map (· / windowSeconds) = some b
    then p.check.cost w else 0

/-- What a task is charged for its call. -/
def due (tenantId : String) (w : Window) (b : ℤ) (es : List LimiterEvent) (s : LimiterState)
    (tid : Nat) : ℤ :=
  (s.task tid).elim 0 (chargeOf tenantId w b (nowOf es tid))

/-- An execution that takes place does so in time for the bucket of its call. -/
def executesTimely (s : LimiterState) : LimiterEvent → Bool
  | .resume tid (.execute outcome clock) =>
    match s.task tid with
    | some (.window _ now _ _) => outcome = .notExecuted || Timely clock (now / windowSeconds)
    | _ => true
  | _ => true

/-! ## What a step charges -/

/-- A step leaves the key of a window as it is and passes no call, or it is an execution for the
tenant on this key. -/
theorem resume_effect {i : Input} {x y : Shared} {p q : Point} (h : resume i x p = some (y, q))
    (tenantId : String) (w : Window) :
    y.store (keyOf tenantId w) = x.store (keyOf tenantId w) ∧
        (p.check.tenant.tenantId = tenantId → q.passed w = true → p.passed w = true) ∨
      ∃ c now rpm stage outcome clock, p = .window c now rpm stage ∧
        i = .execute outcome clock ∧ outcome ≠ .notExecuted ∧ c.tenant.tenantId = tenantId ∧
        let result := slidingWindow clock now windowSeconds (c.maxLimit w) (c.cost w)
          ((x.store (keyOf tenantId w)).live clock)
        y.store (keyOf tenantId w) = result.2 ∧
          (q.passed w = true → p.passed w = true ∨ result.1.allowed = true) := by
  have other : ∀ (c : Check) (rpm : Option WindowResult) (quota : Quota),
      ¬(c.tenant.tenantId = tenantId ∧ windowAt rpm = w) →
      Function.update x.store (c.windowArgs rpm).key quota (keyOf tenantId w) =
        x.store (keyOf tenantId w) := by
    intro c rpm quota hne
    rw [c.windowArgs_eq]
    exact Function.update_of_ne (fun heq => hne ((keyOf_inj.mp heq.symm))) _ _
  cases resume_iff.mp h with
  | clock => exact Or.inl ⟨rfl, fun _ hq => by cases hq⟩
  | @load c now rpm => exact Or.inl ⟨rfl, fun _ hq => by cases rpm <;> exact hq⟩
  | @replied clock c now rpm stage hstage =>
    have hpassed := c.passed_evaluated now rpm stage
      ((c.windowArgs rpm).execute now clock x.store).1.toResult w
    by_cases hkey : c.tenant.tenantId = tenantId ∧ windowAt rpm = w
    · obtain ⟨rfl, rfl⟩ := hkey
      refine Or.inr ⟨c, now, rpm, stage, _, clock, rfl, rfl, by decide, rfl, ?_, fun hq => ?_⟩
      · simp [c.windowArgs_eq, WindowArgs.execute]
      · rw [c.windowArgs_eq] at hpassed hq
        exact (hpassed.mp hq).imp_right fun hallowed => hallowed.2
    · refine Or.inl ⟨other c rpm _ hkey, fun hid hq => ?_⟩
      exact (hpassed.mp hq).resolve_right fun hw => hkey ⟨hid, hw.1⟩
  | @notExecuted clock c now rpm stage hstage =>
    exact Or.inl ⟨rfl, fun _ => c.passed_failed now rpm stage w⟩
  | @replyLost clock c now rpm stage hstage =>
    have hpassed := c.passed_failed now rpm stage w
    by_cases hkey : c.tenant.tenantId = tenantId ∧ windowAt rpm = w
    · obtain ⟨rfl, rfl⟩ := hkey
      refine Or.inr ⟨c, now, rpm, stage, _, clock, rfl, rfl, by decide, rfl, ?_,
        fun hq => Or.inl (hpassed hq)⟩
      simp [c.windowArgs_eq, WindowArgs.execute]
    · exact Or.inl ⟨other c rpm _ hkey, fun _ => hpassed⟩

/-- A call that returns has built its answer from the results of the two windows. -/
theorem exists_buildInfo {i : Input} {x y : Shared} {p : Point} {c : Check} {info : Info}
    (h : resume i x p = some (y, .returned c info)) :
    ∃ rpm tpm, info = buildInfo c.tenant rpm tpm := by
  generalize hq : Point.returned c info = q at h
  cases resume_iff.mp h with
  | clock | load => cases hq
  | @replied clock c' now rpm stage =>
    cases rpm with
    | none => cases hq
    | some r =>
      cases hq
      exact ⟨r, _, rfl⟩
  | @notExecuted clock c' now rpm stage | @replyLost clock c' now rpm stage =>
    cases stage <;> cases hq

/-! ## The times that calls have read -/

theorem nowOf_snoc (es : List LimiterEvent) (e : LimiterEvent) (tid : Nat) :
    nowOf (es ++ [e]) tid = (nowOf es tid).or (nowOf [e] tid) := by
  simp [nowOf, List.findSome?_append]

/-- A step of another task reads no time for this one. -/
theorem nowOf_snoc_of_ne {es : List LimiterEvent} {e : LimiterEvent} {tid : Nat}
    (h : e.tid? ≠ some tid) : nowOf (es ++ [e]) tid = nowOf es tid := by
  have hnone : nowOf [e] tid = none := by
    cases e with
    | spawn => rfl
    | resume tid' i =>
      cases i with
      | now n =>
        have hne : tid' ≠ tid := fun heq => h (congrArg some heq)
        simp [nowOf, hne]
      | scriptLoad | execute => rfl
    | external e => exact e.elim
  rw [nowOf_snoc, hnone, Option.or_none]

theorem nowOf_eq_none {es : List LimiterEvent} {tid : Nat} (h : ∀ e ∈ es, e.tid? ≠ some tid) :
    nowOf es tid = none := by
  induction es using List.reverseRecOn with
  | nil => rfl
  | append_singleton es e ih =>
    rw [nowOf_snoc_of_ne (h e (by simp))]
    exact ih fun e' he' => h e' (List.mem_append_left _ he')

/-- A call that waits in a window knows the time that it has read, and one that has not begun has
read none. -/
def Dated (es : List LimiterEvent) (tid : Nat) (_ : Shared) : Point → Prop
  | .start _ => nowOf es tid = none
  | .window _ now _ _ => nowOf es tid = some now
  | _ => True

theorem dated_outline (x : Shared) :
    limiter.Outline (τ := Nat) x (fun s e => (limiter.step s e).isSome) (fun _ _ => True)
      Dated where
  start := trivial
  spawn es s tid c hrun _ hstep := by
    refine ⟨trivial, ?_⟩
    obtain ⟨t, ht⟩ := Option.isSome_iff_exists.mp hstep
    have hfree : s.task tid = none := by
      cases hs : s.task tid with
      | none => rfl
      | some p => simp [Program.step, hs] at ht
    show nowOf _ tid = none
    rw [nowOf_snoc, nowOf_eq_none (limiter.tid?_ne_of_none hrun hfree)]
    rfl
  resume es s tid i p y q hrun hann _ hp hx := by
    refine ⟨trivial, ?_⟩
    have hdated := hann.2 tid p hp
    cases resume_iff.mp hx with
    | clock =>
      show nowOf _ tid = _
      rw [nowOf_snoc, hdated]
      simp [nowOf]
    | load =>
      show nowOf _ tid = _
      rw [nowOf_snoc, hdated]
      rfl
    | @replied clock c now rpm stage hstage =>
      cases rpm with
      | none =>
        show nowOf _ tid = _
        rw [nowOf_snoc, hdated]
        rfl
      | some r => trivial
    | @notExecuted clock c now rpm stage hstage | @replyLost clock c now rpm stage hstage =>
      cases stage with
      | eval => trivial
      | ensureScript | evalsha =>
        show nowOf _ tid = _
        rw [nowOf_snoc, hdated]
        rfl
  external := nofun
  stable es s e t tid p _ _ _ _ hne _ hdated := by
    have hsame : nowOf (es ++ [e]) tid = nowOf es tid := nowOf_snoc_of_ne hne
    cases p with
    | start | window => exact hsame.trans hdated
    | returned | raised => trivial

theorem dated_run {x : Shared} {es : List LimiterEvent} {s : LimiterState}
    (hrun : Run.execAll limiter.step (.start x) es = some s) {tid : Nat} {p : Point}
    (hp : s.task tid = some p) : Dated es tid s.shared p :=
  ((dated_outline x).run limiter hrun (Run.eachStep_isSome limiter.step hrun)).2 tid p hp

/-! ## What the calls are charged together -/

theorem clocks_snoc (es : List LimiterEvent) (e : LimiterEvent) :
    clocks (es ++ [e]) = clocks es ++ clocks [e] :=
  List.filterMap_append

section Charges

variable (tenantId : String) (w : Window) (b : ℤ)

/-- A step of another task changes nothing of what this one is charged. -/
theorem due_of_ne {es : List LimiterEvent} {s t : LimiterState} {e : LimiterEvent}
    (hstep : limiter.step s e = some t) {tid : Nat} (hne : e.tid? ≠ some tid) :
    due tenantId w b (es ++ [e]) t tid = due tenantId w b es s tid := by
  simp only [due, limiter.task_step_of_ne hstep hne, nowOf_snoc_of_ne hne]

theorem due_of_some {es : List LimiterEvent} {s : LimiterState} {tid : Nat} {p : Point}
    (hp : s.task tid = some p) :
    due tenantId w b es s tid = chargeOf tenantId w b (nowOf es tid) p := by
  simp [due, hp]

variable {tenantId w b}

theorem chargeOf_nonneg (now : Option ℤ) {p : Point}
    (hcost : p.check.tenant.tenantId = tenantId → 0 ≤ p.check.cost w) :
    0 ≤ chargeOf tenantId w b now p := by
  unfold chargeOf
  split
  · rename_i h
    exact hcost h.1
  · exact le_rfl

theorem chargeOf_le_cost (now : Option ℤ) {p : Point}
    (hcost : p.check.tenant.tenantId = tenantId → 0 ≤ p.check.cost w)
    (hid : p.check.tenant.tenantId = tenantId) : chargeOf tenantId w b now p ≤ p.check.cost w := by
  unfold chargeOf
  split
  · exact le_rfl
  · exact hcost hid

/-- A call that passes no further window is charged no more. -/
theorem chargeOf_le {now now' : Option ℤ} {p q : Point} (hcheck : q.check = p.check)
    (hcost : p.check.tenant.tenantId = tenantId → 0 ≤ p.check.cost w)
    (hpassed : p.check.tenant.tenantId = tenantId → q.passed w = true →
      p.passed w = true ∧ now' = now) :
    chargeOf tenantId w b now' q ≤ chargeOf tenantId w b now p := by
  by_cases h : q.check.tenant.tenantId = tenantId ∧ q.passed w = true ∧
      now'.map (· / windowSeconds) = some b
  · obtain ⟨hid, hq, hbucket⟩ := h
    rw [hcheck] at hid
    obtain ⟨hp, rfl⟩ := hpassed hid hq
    simp [chargeOf, hcheck, hid, hp, hq, hbucket]
  · rw [chargeOf, if_neg h]
    exact chargeOf_nonneg now hcost

variable (tenantId w b) in
/-- What the calls of a tenant were charged in a bucket is on the key, and within the limit. -/
structure Bounded (maxLimit : ℤ) (es : List LimiterEvent) (s : LimiterState) : Prop where
  charged : (s.shared.store (keyOf tenantId w)).Charged (clocks es) b
    (total (due tenantId w b es s) es : ℤ)
  le : total (due tenantId w b es s) es ≤ maxLimit

variable {maxLimit : ℤ} {es : List LimiterEvent} {s t : LimiterState} {e : LimiterEvent}

/-- An execution that allows the request is what a call is charged for. -/
theorem chargeOf_le_add {now : ℤ} {now' : Option ℤ} {p q : Point} (allowed : Bool)
    (hcheck : q.check = p.check)
    (hcost : p.check.tenant.tenantId = tenantId → 0 ≤ p.check.cost w)
    (hid : p.check.tenant.tenantId = tenantId) (hnow : now' = some now)
    (hpassed : q.passed w = true → p.passed w = true ∨ allowed = true) :
    chargeOf tenantId w b now' q ≤ chargeOf tenantId w b (some now) p +
      if allowed = true ∧ now / windowSeconds = b then p.check.cost w else 0 := by
  have hgain : 0 ≤ if allowed = true ∧ now / windowSeconds = b then p.check.cost w else 0 := by
    split <;> simp [hcost hid]
  by_cases hp : p.passed w = true
  · have hle : chargeOf tenantId w b now' q ≤ chargeOf tenantId w b (some now) p :=
      chargeOf_le hcheck hcost fun _ _ => ⟨hp, hnow⟩
    omega
  · have hnonneg := chargeOf_nonneg (b := b) (some now) hcost
    by_cases hq : q.passed w = true ∧ now / windowSeconds = b
    · have hallowed := (hpassed hq.1).resolve_left hp
      have hle := chargeOf_le_cost (b := b) now' (p := q) (hcheck ▸ hcost) (hcheck ▸ hid)
      rw [hcheck] at hle
      rw [if_pos ⟨hallowed, hq.2⟩]
      omega
    · have hnone : chargeOf tenantId w b now' q = 0 := by
        refine if_neg fun h => hq ⟨h.2.1, ?_⟩
        rw [hnow] at h
        simpa using h.2.2
      omega

/-- A step that charges the key nothing. -/
theorem Bounded.of_le (h : Bounded tenantId w b maxLimit es s)
    (hstore : t.shared.store (keyOf tenantId w) = s.shared.store (keyOf tenantId w))
    (hle : total (due tenantId w b (es ++ [e]) t) (es ++ [e]) ≤ total (due tenantId w b es s) es) :
    Bounded tenantId w b maxLimit (es ++ [e]) t where
  charged := by
    rw [hstore]
    refine h.charged.mono (by exact_mod_cast hle) ?_
    rw [clocks_snoc]
    exact List.subset_append_left _ _
  le := hle.trans h.le

/-- A step that charges the key what it can hold. -/
theorem Bounded.of_charge (h : Bounded tenantId w b maxLimit es s) {charges : Prop}
    [Decidable charges] {cost : ℤ}
    (hcharged : (t.shared.store (keyOf tenantId w)).Charged (clocks (es ++ [e])) b
      ((total (due tenantId w b es s) es : ℤ) + ((if charges then cost else 0 : ℤ) : ℚ)))
    (hfits : charges → total (due tenantId w b es s) es + cost ≤ maxLimit)
    (hle : total (due tenantId w b (es ++ [e]) t) (es ++ [e]) ≤
      total (due tenantId w b es s) es + if charges then cost else 0) :
    Bounded tenantId w b maxLimit (es ++ [e]) t where
  charged := hcharged.mono (by exact_mod_cast hle) (List.Subset.refl _)
  le := by
    have hle' := h.le
    by_cases hc : charges
    · rw [if_pos hc] at hle
      exact hle.trans (hfits hc)
    · rw [if_neg hc] at hle
      omega

/-- Every step keeps the charges within the limit. -/
theorem Bounded.step {x : Shared} (hrun : Run.execAll limiter.step (.start x) es = some s)
    (hlimit : ∀ tid c, .spawn tid c ∈ es ++ [e] → c.tenant.tenantId = tenantId →
      c.maxLimit w ≤ maxLimit ∧ 0 ≤ c.cost w)
    (hclock : (clocks (es ++ [e])).Pairwise (· ≤ ·)) (htimely : executesTimely s e = true)
    (h : Bounded tenantId w b maxLimit es s) (hstep : limiter.step s e = some t) :
    Bounded tenantId w b maxLimit (es ++ [e]) t := by
  have hothers : ∀ tid, e.tid? = some tid → ∀ tid', tid' ≠ tid →
      due tenantId w b (es ++ [e]) t tid' = due tenantId w b es s tid' := by
    intro tid he tid' hne
    exact due_of_ne _ _ _ hstep (by rw [he]; exact fun heq => hne (Option.some.inj heq).symm)
  obtain ⟨tid, c, rfl, hs, ht⟩ | ⟨tid, i, p, y, q, rfl, hp, hx, ht⟩ | ⟨e, -⟩ :=
    limiter.step_cases hstep
  · have hnew : due tenantId w b es s tid = 0 := by simp [due, hs]
    have htotal := limiter.total_step hrun hstep rfl (hothers tid rfl) fun _ => hnew
    have hstart : due tenantId w b (es ++ [.spawn tid c]) t tid = 0 := by
      simp [ht, due, limiter, chargeOf, Point.passed]
    refine h.of_le (by rw [ht]; rfl) ?_
    omega
  · have htotal := limiter.total_step hrun hstep rfl (hothers tid rfl)
      fun hs => by rw [hp] at hs; cases hs
    have htq : t.task tid = some q := by simp [ht]
    rw [due_of_some tenantId w b hp, due_of_some tenantId w b htq] at htotal
    have hcheck := resume_check hx
    have hmem : .spawn tid p.check ∈ es :=
      limiter.spawn_mem Point.check (fun _ => rfl) resume_check hrun hp
    have hbounds := hlimit tid p.check (List.mem_append_left _ hmem)
    have hdated := dated_run hrun hp
    have hshared : t.shared = y := by rw [ht]; rfl
    have hsame : p.passed w = true →
        nowOf (es ++ [.resume tid i]) tid = nowOf es tid := by
      intro hpassed
      cases p with
      | start c => cases hpassed
      | window c now rpm stage =>
        have hnow : nowOf es tid = some now := hdated
        rw [nowOf_snoc, hnow, Option.some_or]
      | returned | raised => cases i <;> cases hx
    rcases resume_effect hx tenantId w with ⟨hstore, hpassed⟩ |
      ⟨c, now, rpm, stage, outcome, clock, rfl, rfl, houtcome, rfl, hstore, hpassed⟩
    · have hle : chargeOf tenantId w b (nowOf (es ++ [.resume tid i]) tid) q ≤
          chargeOf tenantId w b (nowOf es tid) p :=
        chargeOf_le hcheck (fun hid => (hbounds hid).2)
          fun hid hq => ⟨hpassed hid hq, hsame (hpassed hid hq)⟩
      refine h.of_le (by rw [hshared]; exact hstore) ?_
      omega
    · have hnow : nowOf es tid = some now := hdated
      have hnow' : nowOf (es ++ [.resume tid (.execute outcome clock)]) tid = some now := by
        rw [nowOf_snoc, hnow, Option.some_or]
      have hlater : clocks (es ++ [.resume tid (.execute outcome clock)]) =
          clocks es ++ [clock] := by
        rw [clocks_snoc]
        cases outcome <;> first | rfl | exact absurd rfl houtcome
      rw [hlater] at hclock
      have hpast : ∀ c' ∈ clocks es, c' ≤ clock := fun c' hc' =>
        (List.pairwise_append.mp hclock).2.2 c' hc' clock (List.mem_singleton_self _)
      obtain ⟨hmax, hcost⟩ : c.maxLimit w ≤ maxLimit ∧ 0 ≤ c.cost w := hbounds rfl
      have htimely : Timely clock (now / windowSeconds) := by
        simpa [executesTimely, hp, houtcome] using htimely
      obtain ⟨hcharged, hwithin⟩ := h.charged.execute hpast hcost (c.maxLimit w) htimely
      have hgain : chargeOf c.tenant.tenantId w b
          (nowOf (es ++ [.resume tid (.execute outcome clock)]) tid) q ≤
            _ + if _ then c.cost w else 0 :=
        chargeOf_le_add _ hcheck (fun _ => hcost) rfl hnow' hpassed
      rw [hnow] at htotal
      rw [← hstore, ← hshared, ← hlater] at hcharged
      exact h.of_charge (by simpa [apply_ite] using hcharged)
        (fun hallowed => (by exact_mod_cast hwithin hallowed.1 hallowed.2 : _ ≤ c.maxLimit w).trans
          hmax) (by omega)
  · exact e.elim

end Charges

end StigmergicMesh.RateLimit
