import StigmergicMesh.RateLimit.Interleaved

/-!
# What the limiter reports

Whatever calls interleave, the numbers that a call returns speak of the bucket it has read: the
reset is what is left of it, the rest is within the limit, and what was admitted leaves no debt.
-/

namespace StigmergicMesh.RateLimit

open Tasks

/-- What is left of the bucket at `now`. -/
def secondsLeft (now : ℤ) : ℤ := windowSeconds - now % windowSeconds

/-- What the result of a window reports at `now`. -/
structure WindowResult.Reports (limit now : ℤ) (r : WindowResult) : Prop where
  reset : r.reset = secondsLeft now
  remaining_le : r.remaining ≤ max 0 limit
  remaining_nonneg : r.allowed = true → 0 ≤ r.remaining

/-! ## One execution -/

theorem truncate_intCast (n : ℤ) : truncate n = n := by
  unfold truncate
  split_ifs <;> simp

theorem truncate_nonneg {x : ℚ} (h : 0 ≤ x) : 0 ≤ truncate x := by
  rw [truncate, if_pos h]
  exact Int.floor_nonneg.mpr h

theorem truncate_le_max {x : ℚ} {n : ℤ} (h : x ≤ n) : truncate x ≤ max 0 n := by
  unfold truncate
  split_ifs with hx
  · have hfloor : ⌊x⌋ ≤ n := by simpa using Int.floor_le_floor h
    omega
  · have hceil : ⌈x⌉ ≤ 0 := Int.ceil_le.mpr (by simpa using (not_le.mp hx).le)
    omega

theorem truncate_resetAfter (now : ℤ) :
    truncate (resetAfter now windowSeconds) = secondsLeft now := by
  have hreset : resetAfter now windowSeconds = (secondsLeft now : ℚ) := by
    rw [resetAfter, currentBucket_windowSeconds]
    have hdiv := Int.mul_ediv_add_emod now windowSeconds
    have hleft : (now / windowSeconds + 1) * windowSeconds - now = secondsLeft now := by
      rw [secondsLeft]
      linarith
    exact_mod_cast hleft
  rw [hreset, truncate_intCast]

theorem Quota.weighted_nonneg {q : Quota} (h : ∀ d, 0 ≤ q.value d) (now : ℤ) :
    0 ≤ q.weighted now windowSeconds :=
  (h _).trans (value_le_weighted h now)

theorem reports_slidingWindow {q : Quota} (h : ∀ d, 0 ≤ q.value d) (clock : ℚ) (now limit : ℤ)
    {cost : ℤ} (hcost : 0 ≤ cost) :
    (slidingWindow clock now windowSeconds limit cost q).1.toResult.Reports limit now := by
  have hweighted := q.weighted_nonneg h now
  have hcost : (0 : ℚ) ≤ cost := by exact_mod_cast hcost
  dsimp only [slidingWindow]
  split_ifs with hrejected
  · refine ⟨truncate_resetAfter now, truncate_le_max ?_, fun hallowed => by cases hallowed⟩
    linarith
  · -- The reply counts what has just been recorded.
    have hrecorded := q.weighted_record clock now windowSeconds cost
    rw [Quota.weighted, Quota.value_record_of_ne _ _ _ _ _ (by omega)] at hrecorded
    refine ⟨truncate_resetAfter now, truncate_le_max ?_, fun _ => truncate_nonneg ?_⟩
    · show (limit : ℚ) - (q.value _ * _ + _) ≤ _
      rw [hrecorded]
      linarith
    · show 0 ≤ (limit : ℚ) - (q.value _ * _ + _)
      rw [hrecorded]
      linarith

theorem nonneg_slidingWindow {q : Quota} (h : ∀ d, 0 ≤ q.value d) (clock now limit : ℚ) {cost : ℚ}
    (hcost : 0 ≤ cost) (d : ℤ) :
    0 ≤ (slidingWindow clock now windowSeconds limit cost q).2.value d := by
  by_cases hfits : q.Fits now windowSeconds limit cost
  · rw [(slidingWindow_of_fits clock hfits).2]
    by_cases hd : d = currentBucket now windowSeconds
    · rw [hd, Quota.value_record_current]
      exact add_nonneg (h _) hcost
    · rw [q.value_record_of_ne _ _ _ _ hd]
      exact h d
  · rw [(slidingWindow_of_not_fits clock hfits).2]
    exact h d

/-! ## Calls -/

/-- No count is negative. -/
def QuotaStore.Nonneg (store : QuotaStore) : Prop := ∀ key d, 0 ≤ (store key).value d

/-- What a call reports is what the buckets of its time say. -/
def Reported (es : List LimiterEvent) (tid : Nat) : Point → Prop
  | .window c now (some rpm) _ => rpm.Reports c.tenant.rpmLimit now
  | .returned c info => ∃ now rpm tpm, nowOf es tid = some now ∧
      info = buildInfo c.tenant rpm tpm ∧ rpm.Reports c.tenant.rpmLimit now ∧
        tpm.Reports c.tenant.tpmLimit now
  | _ => True

theorem WindowArgs.reports_execute (c : Check) (rpm : Option WindowResult) (now : ℤ) (clock : ℚ)
    {store : QuotaStore} (hstore : store.Nonneg) (hcost : 0 ≤ c.promptTokenCost) :
    ((c.windowArgs rpm).execute now clock store).1.toResult.Reports (c.windowArgs rpm).maxLimit
        now ∧
      ∀ d, 0 ≤ ((c.windowArgs rpm).execute now clock store).2.value d := by
  have hcost : 0 ≤ (c.windowArgs rpm).cost := by
    cases rpm with
    | none => exact Int.one_nonneg
    | some => exact hcost
  have hlive := Quota.nonneg_live (hstore (c.windowArgs rpm).key) clock
  exact ⟨reports_slidingWindow hlive clock now _ hcost,
    nonneg_slidingWindow hlive clock _ _ (by exact_mod_cast hcost)⟩

/-- The calls of a run cost nothing negative. -/
def CostsNonneg : LimiterEvent → Prop
  | .spawn _ c => 0 ≤ c.promptTokenCost
  | _ => True

theorem reported_outline {x : Shared} (hstore : x.store.Nonneg) :
    limiter.Outline (τ := Nat) x (fun _ e => CostsNonneg e) (fun _ y => y.store.Nonneg)
      (fun es tid _ p => 0 ≤ p.check.promptTokenCost ∧ Reported es tid p) where
  start := hstore
  spawn es s tid c _ hann hcost := ⟨hann.1, hcost, trivial⟩
  resume es s tid i p y q hrun hann _ hp hx := by
    obtain ⟨hstore, htasks⟩ := hann
    obtain ⟨hcost, hreported⟩ := htasks tid p hp
    have hdated := dated_run hrun hp
    have updated : ∀ (c : Check) (rpm : Option WindowResult) (now : ℤ) (clock : ℚ),
        0 ≤ c.promptTokenCost → QuotaStore.Nonneg (Function.update s.shared.store
          (c.windowArgs rpm).key ((c.windowArgs rpm).execute now clock s.shared.store).2) := by
      intro c rpm now clock hcost key d
      by_cases hkey : key = (c.windowArgs rpm).key
      · subst hkey
        rw [Function.update_self]
        exact (WindowArgs.reports_execute c rpm now clock hstore hcost).2 d
      · rw [Function.update_of_ne hkey]
        exact hstore key d
    have failed : ∀ (c : Check) (now : ℤ) (rpm : Option WindowResult) (stage : Stage)
        (fs : List LimiterEvent), 0 ≤ c.promptTokenCost →
        Reported es tid (.window c now rpm stage) →
        0 ≤ (c.failed now rpm stage).check.promptTokenCost ∧
          Reported fs tid (c.failed now rpm stage) := by
      intro c now rpm stage fs hcost hreported
      cases stage with
      | eval => exact ⟨hcost, trivial⟩
      | ensureScript | evalsha => cases rpm <;> exact ⟨hcost, hreported⟩
    cases resume_iff.mp hx with
    | clock => exact ⟨hstore, hcost, trivial⟩
    | @load c now rpm => exact ⟨hstore, hcost, by cases rpm <;> exact hreported⟩
    | @replied clock c now rpm stage hstage =>
      obtain ⟨hreports, -⟩ := WindowArgs.reports_execute c rpm now clock hstore hcost
      refine ⟨updated c rpm now clock hcost, ?_⟩
      cases rpm with
      | none => exact ⟨hcost, hreports⟩
      | some r =>
        refine ⟨hcost, now, r, _, ?_, rfl, hreported, hreports⟩
        rw [nowOf_snoc, show nowOf es tid = some now from hdated]
        rfl
    | @notExecuted clock c now rpm stage hstage =>
      exact ⟨hstore, failed c now rpm stage _ hcost hreported⟩
    | @replyLost clock c now rpm stage hstage =>
      exact ⟨updated c rpm now clock hcost, failed c now rpm stage _ hcost hreported⟩
  external := nofun
  stable es s e t tid p _ _ _ _ hne _ hreported := by
    obtain ⟨hcost, hreported⟩ := hreported
    refine ⟨hcost, ?_⟩
    cases p with
    | start | raised => trivial
    | window c now rpm => cases rpm <;> exact hreported
    | returned c info =>
      obtain ⟨now, rpm, tpm, hnow, h⟩ := hreported
      exact ⟨now, rpm, tpm, (nowOf_snoc_of_ne hne).trans hnow, h⟩

/-- What the calls of a run report. -/
theorem reported_run {x : Shared} (hstore : x.store.Nonneg) {es : List LimiterEvent}
    {s : LimiterState} (hrun : Run.execAll limiter.step (.start x) es = some s)
    (hcosts : ∀ e ∈ es, CostsNonneg e) {tid : Nat} {p : Point} (hp : s.task tid = some p) :
    Reported es tid p :=
  (((reported_outline hstore).run limiter hrun fun pre e post s hes _ =>
    hcosts e (by simp [hes])).2 tid p hp).2

/-! ## The binding window -/

/-- What the answer of a call says of the window that binds. -/
structure Info.Reports (tenant : Tenant) (now : ℤ) (info : Info) : Prop where
  limit : info.limit = tenant.rpmLimit ∨ info.limit = tenant.tpmLimit
  remaining_le : info.remaining ≤ max 0 info.limit
  remaining_nonneg : info.allowed = true → 0 ≤ info.remaining
  reset : info.reset = secondsLeft now

theorem reports_buildInfo {tenant : Tenant} {now : ℤ} {rpm tpm : WindowResult}
    (hrpm : rpm.Reports tenant.rpmLimit now) (htpm : tpm.Reports tenant.tpmLimit now) :
    (buildInfo tenant rpm tpm).Reports tenant now := by
  cases hr : rpm.allowed with
  | false =>
    refine ⟨Or.inl ?_, ?_, fun hallowed => ?_, ?_⟩
    · simp [buildInfo, hr]
    · simpa [buildInfo, hr] using hrpm.remaining_le
    · simp [buildInfo, hr] at hallowed
    · simpa [buildInfo, hr] using hrpm.reset
  | true =>
    cases ht : tpm.allowed with
    | false =>
      refine ⟨Or.inr ?_, ?_, fun hallowed => ?_, ?_⟩
      · simp [buildInfo, hr, ht]
      · simpa [buildInfo, hr, ht] using htpm.remaining_le
      · simp [buildInfo, hr, ht] at hallowed
      · simpa [buildInfo, hr, ht] using htpm.reset
    | true =>
      by_cases hle : rpm.remaining ≤ tpm.remaining
      · refine ⟨Or.inl ?_, ?_, fun _ => ?_, ?_⟩
        · simp [buildInfo, hr, ht, hle]
        · simpa [buildInfo, hr, ht, hle] using hrpm.remaining_le
        · simpa [buildInfo, hr, ht, hle] using hrpm.remaining_nonneg hr
        · simpa [buildInfo, hr, ht, hle] using hrpm.reset
      · refine ⟨Or.inr ?_, ?_, fun _ => ?_, ?_⟩
        · simp [buildInfo, hr, ht, hle]
        · simpa [buildInfo, hr, ht, hle] using htpm.remaining_le
        · simpa [buildInfo, hr, ht, hle] using htpm.remaining_nonneg ht
        · simpa [buildInfo, hr, ht, hle] using htpm.reset

end StigmergicMesh.RateLimit
