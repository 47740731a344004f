import StigmergicMesh.RateLimit.Admission
import StigmergicMesh.RateLimit.Rejection

/-!
# What the rate-limit headers promise

`X-RateLimit-Remaining` and `Retry-After` are the `remaining` and `reset` of the last script
execution, cut to whole numbers. The remaining count is exact: so many further requests of cost
one are admitted at the same time, and no more. The reset is the start of the next bucket, where
the current bucket still counts in full as the previous one; so waiting for it is enough only
if the current bucket leaves room for the request.
-/

namespace StigmergicMesh.RateLimit

open Ledger

/-! ## The key at a time -/

/-- What the script counts at `now` when it next reads the key. -/
def Session.usageAt (window now : ℚ) (s : Session) : ℚ := (s.quota.live now).weighted now window

/-- What is stored after an execution is what the next one at the same time reads. -/
theorem Session.live_serve {window : ℚ} (hw : 0 < window) (maxLimit : ℚ) (s : Session)
    (r : Request) : (s.serve true window maxLimit r).quota.live r.now =
      (s.serve true window maxLimit r).quota := by
  rcases s.serve_cases true window maxLimit r with ⟨-, hq, -⟩ | ⟨hq, -⟩
  · rw [hq]
    exact Quota.live_record _ _ _ (by linarith)
  · rw [hq]
    exact Quota.live_live _ le_rfl

/-- The reported rest is what the limit leaves over the count just stored. -/
theorem slidingWindow_remaining (clock now window maxLimit cost : ℚ) (q : Quota) :
    (slidingWindow clock now window maxLimit cost q).1.remaining =
      maxLimit - (slidingWindow clock now window maxLimit cost q).2.weighted now window := by
  simp only [slidingWindow]
  split
  · rfl
  · simp [Quota.weighted, Quota.value, Quota.record]

/-- One execution adds its cost to the count if there is room for it, and reports what is left. -/
theorem Session.serve_reply {window : ℚ} (hw : 0 < window) (maxLimit : ℚ) (s : Session)
    (r : Request) : ∃ reply : Reply,
      (s.serve true window maxLimit r).log = s.log ++ [(r, reply)] ∧
      reply.remaining = maxLimit - (s.serve true window maxLimit r).usageAt window r.now ∧
      (s.usageAt window r.now + r.cost ≤ maxLimit → reply.allowed = true ∧
        (s.serve true window maxLimit r).usageAt window r.now =
          s.usageAt window r.now + r.cost) ∧
      (maxLimit < s.usageAt window r.now + r.cost → reply.allowed = false) := by
  refine ⟨(slidingWindow r.now r.now window maxLimit r.cost (s.quota.live r.now)).1, rfl, ?_⟩
  simp only [Session.usageAt, s.live_serve hw]
  have hstored : (s.serve true window maxLimit r).quota =
      (slidingWindow r.now r.now window maxLimit r.cost (s.quota.live r.now)).2 := rfl
  rw [hstored]
  refine ⟨slidingWindow_remaining _ _ _ _ _ _, fun hfits => ?_, fun hfull => ?_⟩
  · obtain ⟨hallowed, hrecorded⟩ := slidingWindow_of_fits r.now hfits
    exact ⟨hallowed, by rw [hrecorded, Quota.weighted_record]⟩
  · exact (slidingWindow_of_not_fits r.now (not_le.mpr hfull)).1

/-! ## Remaining -/

/-- After requests at times that do not decrease the script counts the ledger's two buckets. -/
theorem usageAt_eq_blend {window : ℚ} (maxLimit : ℚ) (hw : 0 < window) (rs : List Request)
    (hsorted : rs.Pairwise (fun r r' => r.now ≤ r'.now)) {now : ℚ} (hnow : ∀ r ∈ rs, r.now ≤ now) :
    (serveAll true window maxLimit rs).usageAt window now =
      blend window (currentBucket now window) now (serveAll true window maxLimit rs).admitted := by
  obtain ⟨htotals, -⟩ := (serveAll_remembers maxLimit hw rs hsorted now hnow).live le_rfl
  have hprev := htotals (currentBucket now window - 1) (currentBucket_lt hw le_rfl)
  have hcur := htotals (currentBucket now window) (currentBucket_lt hw (by omega))
  simp only [Session.usageAt, Quota.weighted, fraction, blend, hprev, hcur]

section Usage

variable {window maxLimit : ℚ} (hw : 0 < window) {rs : List Request}
  (hcost : ∀ r ∈ rs, 0 ≤ r.cost) (hsorted : rs.Pairwise (fun r r' => r.now ≤ r'.now))

include hw hcost hsorted

/-- The count stays between zero and the limit. -/
theorem usageAt_mem (hM : 0 ≤ maxLimit) {now : ℚ} (hnow : ∀ r ∈ rs, r.now ≤ now) :
    0 ≤ (serveAll true window maxLimit rs).usageAt window now ∧
      (serveAll true window maxLimit rs).usageAt window now ≤ maxLimit := by
  obtain ⟨hpair, hadm⟩ := serveAll_admissible maxLimit hw rs hcost hsorted
  have hbucket := inBucket_currentBucket now hw
  have hbefore := (serveAll_remembers maxLimit hw rs hsorted now hnow).before
  rw [usageAt_eq_blend maxLimit hw rs hsorted hnow]
  exact ⟨blend_nonneg hw hadm.cost_nonneg hbucket, hadm.blend_le hw hM hpair hbucket hbefore⟩

/-- While nothing is admitted the count does not grow. -/
theorem usageAt_anti {now now' : ℚ} (hnow : ∀ r ∈ rs, r.now ≤ now) (hle : now ≤ now') :
    (serveAll true window maxLimit rs).usageAt window now' ≤
      (serveAll true window maxLimit rs).usageAt window now := by
  obtain ⟨-, hadm⟩ := serveAll_admissible maxLimit hw rs hcost hsorted
  have hbefore := (serveAll_remembers maxLimit hw rs hsorted now hnow).before
  rw [usageAt_eq_blend maxLimit hw rs hsorted hnow,
    usageAt_eq_blend maxLimit hw rs hsorted fun r hr => (hnow r hr).trans hle]
  exact blend_anti hw hadm.cost_nonneg (inBucket_currentBucket now hw)
    (inBucket_currentBucket now' hw) hbefore hle

end Usage

/-- The verdicts given so far. -/
def Session.verdicts (s : Session) : List Bool := s.log.map (fun e => e.2.allowed)

/-- With room for `n` more of them, requests of cost one are admitted `n` times and then not. -/
theorem verdicts_unit_requests {window : ℚ} (hw : 0 < window) (maxLimit now : ℚ) (n : ℕ) :
    ∀ s : Session, s.usageAt window now + n ≤ maxLimit →
      maxLimit < s.usageAt window now + n + 1 →
      ((List.replicate (n + 1) ⟨now, 1⟩).foldl (Session.serve true window maxLimit) s).verdicts =
        s.verdicts ++ (List.replicate n true ++ [false]) := by
  induction n with
  | zero =>
    intro s _ hfull
    obtain ⟨reply, hlog, -, -, hdenied⟩ := s.serve_reply hw maxLimit ⟨now, 1⟩
    have hno : reply.allowed = false := hdenied (by simpa using hfull)
    simp [Session.verdicts, hlog, hno]
  | succ n ih =>
    intro s hroom hfull
    push_cast at hroom hfull
    have hn : (0 : ℚ) ≤ n := Nat.cast_nonneg n
    obtain ⟨reply, hlog, -, hadmitted, -⟩ := s.serve_reply hw maxLimit ⟨now, 1⟩
    obtain ⟨hyes, husage⟩ := hadmitted (by show _ + 1 ≤ _; linarith)
    have hrest := ih (s.serve true window maxLimit ⟨now, 1⟩)
      (by rw [husage]; linarith) (by rw [husage]; linarith)
    rw [List.replicate_succ, List.foldl_cons, hrest]
    simp [Session.verdicts, hlog, hyes, List.replicate_succ]

/-- A nonnegative rest is cut to the number of units that fit into it. -/
theorem truncate_of_nonneg {x : ℚ} (hx : 0 ≤ x) :
    ∃ n : ℕ, truncate x = n ∧ (n : ℚ) ≤ x ∧ x < n + 1 := by
  have hfloor : ((⌊x⌋.toNat : ℤ) : ℚ) = ⌊x⌋ := by
    rw [Int.toNat_of_nonneg (Int.floor_nonneg.mpr hx)]
  refine ⟨⌊x⌋.toNat, ?_, ?_, ?_⟩
  · rw [truncate, if_pos hx, Int.toNat_of_nonneg (Int.floor_nonneg.mpr hx)]
  · exact_mod_cast hfloor.trans_le (Int.floor_le x)
  · have hlt := Int.lt_floor_add_one x
    rw [← hfloor] at hlt
    exact_mod_cast hlt

/-- The count is within the limit and falls while nothing is admitted, and the reported rest is
the number of requests of cost one that are still admitted at the time of the report. -/
theorem remaining_exact {window maxLimit : ℚ} (hw : 0 < window) (hM : 0 ≤ maxLimit)
    (rs : List Request) (hcost : ∀ r ∈ rs, 0 ≤ r.cost)
    (hsorted : rs.Pairwise (fun r r' => r.now ≤ r'.now)) :
    (∀ now, (∀ r ∈ rs, r.now ≤ now) →
        0 ≤ (serveAll true window maxLimit rs).usageAt window now ∧
          (serveAll true window maxLimit rs).usageAt window now ≤ maxLimit) ∧
      (∀ now now', (∀ r ∈ rs, r.now ≤ now) → now ≤ now' →
        (serveAll true window maxLimit rs).usageAt window now' ≤
          (serveAll true window maxLimit rs).usageAt window now) ∧
      ∀ r reply, (serveAll true window maxLimit rs).log.getLast? = some (r, reply) →
        ∃ n : ℕ, reply.toResult.remaining = n ∧
          (serveAll true window maxLimit (rs ++ List.replicate (n + 1) ⟨r.now, 1⟩)).verdicts =
            (serveAll true window maxLimit rs).verdicts ++ (List.replicate n true ++ [false]) := by
  refine ⟨fun now hnow => usageAt_mem hw hcost hsorted hM hnow,
    fun now now' hnow hle => usageAt_anti hw hcost hsorted hnow hle, ?_⟩
  intro r reply hlast
  rcases rs.eq_nil_or_concat with rfl | ⟨before, r', rfl⟩
  · simp [serveAll] at hlast
  · rw [List.concat_eq_append] at hlast hcost hsorted ⊢
    obtain ⟨reply', hlog, hremaining, -⟩ :=
      (serveAll true window maxLimit before).serve_reply hw maxLimit r'
    rw [serveAll_snoc, hlog, List.getLast?_concat, Option.some.injEq, Prod.mk.injEq] at hlast
    obtain ⟨rfl, rfl⟩ := hlast
    have hnow : ∀ x ∈ before ++ [r'], x.now ≤ r'.now := le_last_of_sorted hsorted
    obtain ⟨-, hle⟩ := usageAt_mem hw hcost hsorted hM hnow
    rw [← serveAll_snoc] at hremaining
    obtain ⟨n, hn, hfloor, hnext⟩ := truncate_of_nonneg (x := reply'.remaining) (by linarith)
    refine ⟨n, hn, ?_⟩
    have hverdicts := verdicts_unit_requests hw maxLimit r'.now n
      (serveAll true window maxLimit (before ++ [r'])) (by linarith) (by linarith)
    rw [← hverdicts, serveAll, List.foldl_append]
    rfl

/-- A request in each of two buckets leaves a rest of one and a quarter. -/
theorem remaining_exact_two_buckets :
    ∃ n : ℕ, (Reply.toResult ⟨true, 1.75, 1.25, 45⟩).remaining = n ∧
      (serveAll true 60 3 ([⟨45, 1⟩, ⟨75, 1⟩] ++ List.replicate (n + 1) ⟨75, 1⟩)).verdicts =
        (serveAll true 60 3 [⟨45, 1⟩, ⟨75, 1⟩]).verdicts ++ (List.replicate n true ++ [false]) :=
  (remaining_exact (by norm_num) (by norm_num) [⟨45, 1⟩, ⟨75, 1⟩] (by simp) (by norm_num)).2.2
    ⟨75, 1⟩ ⟨true, 1.75, 1.25, 45⟩ (by
      norm_num [serveAll, Session.serve, Quota.live, Quota.empty, slidingWindow, Quota.weighted,
        Quota.value, Quota.record, fraction, currentBucket, resetAfter])

/-! ## Retry-After -/

/-- The reply to a request that is repeated after the reset first reported, with nothing executed
on the key in between. -/
def retried (clock : ℚ) (now window : ℤ) (maxLimit cost : ℚ) (q : Quota) : Reply :=
  let (reply, q') := slidingWindow clock now window maxLimit cost q
  let wait : ℤ := reply.toResult.reset
  (slidingWindow (clock + wait) ((now + wait : ℤ) : ℚ) window maxLimit cost
    (q'.live (clock + wait))).1

/-- If the request is rejected, the same request is admitted once the reported reset has passed. -/
def RetryAfterHonest (clock : ℚ) (now window : ℤ) (maxLimit cost : ℚ) (q : Quota) : Prop :=
  (slidingWindow clock now window maxLimit cost q).1.allowed = false →
    (retried clock now window maxLimit cost q).allowed = true

/-- Whole seconds until the next bucket. -/
def untilNextBucket (now window : ℤ) : ℤ := (now / window + 1) * window - now

/-- The key will have expired by the start of the next bucket. -/
def Quota.GoneByNextBucket (q : Quota) (clock : ℚ) (now window : ℤ) : Prop :=
  ∃ deadline, q.expireAt = some deadline ∧ deadline ≤ clock + untilNextBucket now window

theorem currentBucket_intCast {window : ℤ} (hw : 0 < window) (now : ℤ) :
    currentBucket now window = now / window := by
  have hw' : (0 : ℚ) < window := by exact_mod_cast hw
  exact (inBucket_currentBucket _ hw').unique hw' (inBucket_ediv hw now).1

/-- In whole seconds the reported reset is the time to the next bucket. -/
theorem slidingWindow_reset (clock : ℚ) {now window : ℤ} (hw : 0 < window) (maxLimit cost : ℚ)
    (q : Quota) : (slidingWindow clock now window maxLimit cost q).1.toResult.reset =
      untilNextBucket now window := by
  have hreset : (slidingWindow clock now window maxLimit cost q).1.reset =
      (untilNextBucket now window : ℤ) := by
    have hcut : (slidingWindow clock now window maxLimit cost q).1.reset =
        resetAfter now window := by
      simp only [slidingWindow]
      split <;> rfl
    rw [hcut, resetAfter, currentBucket_intCast hw, untilNextBucket]
    push_cast
    rfl
  simp [Reply.toResult, hreset, truncate]

/-- At the start of the next bucket the current one still counts in full. -/
theorem weighted_nextBucket {now window : ℤ} (hw : 0 < window) (q : Quota) :
    q.weighted ((now + untilNextBucket now window : ℤ) : ℚ) window =
      q.value (now / window) + q.value (now / window + 1) := by
  have hw' : (window : ℚ) ≠ 0 := by exact_mod_cast hw.ne'
  have hstart : now + untilNextBucket now window = (now / window + 1) * window := by
    rw [untilNextBucket]
    ring
  have hbucket : (now + untilNextBucket now window) / window = now / window + 1 := by
    rw [hstart, Int.mul_ediv_cancel _ hw.ne']
  rw [Quota.weighted, fraction, currentBucket_intCast hw, hbucket, hstart]
  push_cast
  simp

/-- When the repeated request is admitted, in terms of the key before the rejection. -/
theorem retried_spec (clock : ℚ) {now window : ℤ} (hw : 0 < window) {maxLimit cost : ℚ}
    (hcost : cost ≤ maxLimit) {q : Quota} (hrejected : ¬q.Fits now window maxLimit cost) :
    (retried clock now window maxLimit cost q).allowed = true ↔
      q.GoneByNextBucket clock now window ∨
        q.value (now / window) + q.value (now / window + 1) + cost ≤ maxLimit := by
  obtain ⟨-, hkept⟩ := slidingWindow_of_not_fits clock hrejected
  have hretried : (retried clock now window maxLimit cost q).allowed = true ↔
      (q.live (clock + untilNextBucket now window)).Fits
        ((now + untilNextBucket now window : ℤ) : ℚ) window maxLimit cost := by
    simp only [retried, slidingWindow_reset clock hw, hkept]
    exact (slidingWindow_spec _ _ _ _ _ _).1
  have hroom : q.Fits ((now + untilNextBucket now window : ℤ) : ℚ) window maxLimit cost ↔
      q.value (now / window) + q.value (now / window + 1) + cost ≤ maxLimit := by
    rw [Quota.Fits, weighted_nextBucket hw]
  rw [hretried, ← hroom]
  cases hdeadline : q.expireAt with
  | none => simp [Quota.live, hdeadline, Quota.GoneByNextBucket]
  | some d =>
    by_cases hgone : d ≤ clock + untilNextBucket now window
    · simp [Quota.live, hdeadline, hgone, Quota.Fits, hcost, Quota.GoneByNextBucket]
    · simp [Quota.live, hdeadline, hgone, Quota.GoneByNextBucket]

/-- Waiting for the reported reset is enough exactly if nothing has to be waited for, or the key
is gone by then, or the current bucket and the next one leave room for the request. -/
theorem retryAfterHonest_iff (clock : ℚ) {now window : ℤ} (hw : 0 < window) {maxLimit cost : ℚ}
    (hcost : cost ≤ maxLimit) (q : Quota) :
    RetryAfterHonest clock now window maxLimit cost q ↔
      q.Fits now window maxLimit cost ∨ q.GoneByNextBucket clock now window ∨
        q.value (now / window) + q.value (now / window + 1) + cost ≤ maxLimit := by
  by_cases hfits : q.Fits now window maxLimit cost
  · have hallowed := (slidingWindow_of_fits clock hfits).1
    simp [RetryAfterHonest, hfits, hallowed]
  · have hdenied := (slidingWindow_of_not_fits clock hfits).1
    simp only [RetryAfterHonest, hdenied, retried_spec clock hw hcost hfits, hfits]
    simp

/-- The bucket before the rejection has become the previous one, and nothing else counts. -/
theorem retryAfterHonest_next_bucket :
    RetryAfterHonest 61 61 60 1 1 (Quota.empty.record 59 59 60 1) :=
  (retryAfterHonest_iff 61 (by norm_num) le_rfl _).mpr
    (Or.inr (Or.inr (by norm_num [Quota.value, Quota.record, Quota.empty, currentBucket])))

/-- The limit of one is used up at second 0: a request at second 1 is told to come back in 59
seconds, and is rejected again then. -/
theorem retry_rejected_again :
    ¬RetryAfterHonest 1 1 60 1 1 ((serveAll true 60 1 [⟨0, 1⟩]).quota.live 1) := by
  have hquota : (serveAll true 60 1 [⟨0, 1⟩]).quota.live 1 = Quota.empty.record 0 0 60 1 := by
    norm_num [serveAll, Session.serve, slidingWindow, Quota.live, Quota.record, Quota.weighted,
      Quota.value, Quota.empty]
  have hrejected : ¬(Quota.empty.record 0 0 60 1).Fits (1 : ℤ) (60 : ℤ) 1 1 := by
    norm_num [Quota.Fits, Quota.weighted, Quota.value, Quota.record, Quota.empty, currentBucket]
  intro honest
  have hdenied := (slidingWindow_of_not_fits 1 hrejected).1
  rw [hquota] at honest
  have hadmitted := (retried_spec 1 (by norm_num) le_rfl hrejected).mp (honest hdenied)
  norm_num [Quota.GoneByNextBucket, Quota.value, Quota.record, Quota.empty, currentBucket,
    untilNextBucket] at hadmitted

/-- In requests at times that do not decrease, only the current bucket decides: waiting is enough
if what it has admitted leaves room for the request. -/
theorem serveAll_retry_iff {now window : ℤ} (hw : 0 < window) {maxLimit cost : ℚ}
    (hcost : cost ≤ maxLimit) (rs : List Request)
    (hsorted : rs.Pairwise (fun r r' => r.now ≤ r'.now)) (hnow : ∀ r ∈ rs, r.now ≤ now)
    (hrejected : ¬((serveAll true window maxLimit rs).quota.live now).Fits now window maxLimit
      cost) :
    (retried now now window maxLimit cost
        ((serveAll true window maxLimit rs).quota.live now)).allowed = true ↔
      spent (InBucket (window : ℚ) (now / window)) (serveAll true window maxLimit rs).admitted +
        cost ≤ maxLimit := by
  have hw' : (0 : ℚ) < window := by exact_mod_cast hw
  have hremembers := serveAll_remembers maxLimit hw' rs hsorted now hnow
  obtain ⟨htotals, hdeadline⟩ := hremembers.live le_rfl
  have hbucket := (inBucket_ediv hw now).1
  have hcurrent := currentBucket_intCast hw now
  rw [retried_spec _ hw hcost hrejected,
    htotals (now / window) (currentBucket_lt hw' (by omega)),
    htotals (now / window + 1) (currentBucket_lt hw' (by omega)),
    spent_later hw' hbucket hremembers.before (d := now / window + 1) (by omega), add_zero]
  refine or_iff_right_of_imp ?_
  rintro ⟨d, hd, hgone⟩
  -- A key that is gone by then was last written before the current bucket.
  have hnone : spent (InBucket (window : ℚ) (now / window))
      (serveAll true window maxLimit rs).admitted = 0 := by
    apply spent_eq_zero
    intro e he hin
    have hlast := hdeadline d hd e he
    rw [untilNextBucket] at hgone
    push_cast at hgone
    linarith [hin.1]
  rw [hnone]
  linarith

end StigmergicMesh.RateLimit
