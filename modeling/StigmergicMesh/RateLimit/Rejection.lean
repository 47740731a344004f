import StigmergicMesh.RateLimit.Script
import Mathlib.Algebra.Ring.CharZero

/-!
# What a rejected request leaves behind

`check_rate_limits` runs the RPM script and the TPM script one after the other, and each records
the cost on its own verdict. So a request that one dimension admits and the other rejects is
refused to the tenant and still charged in the dimension that admitted it. A reply that is lost
makes the client execute the script a second time, on a key that may hold the cost already.
-/

namespace StigmergicMesh.RateLimit

theorem Tenant.rpmKey_ne_tpmKey (t : Tenant) : t.rpmKey ≠ t.tpmKey := by
  simp only [rpmKey, tpmKey, ne_eq, String.append_right_inj]
  decide

/-! ## One dimension -/

/-- Recording the cost leaves the fields as they are. -/
def Quota.Unmarked (q : Quota) (now window cost : ℚ) : Prop :=
  cost = 0 ∧ (q.fields (currentBucket now window)).isSome

/-- One execution: its verdict, and when it leaves the fields as they were. -/
theorem slidingWindow_spec (clock now window maxLimit cost : ℚ) (q : Quota) :
    ((slidingWindow clock now window maxLimit cost q).1.allowed = true ↔
        q.Fits now window maxLimit cost) ∧
      ((slidingWindow clock now window maxLimit cost q).2.fields = q.fields ↔
        (q.Fits now window maxLimit cost → q.Unmarked now window cost)) := by
  by_cases hfit : q.Fits now window maxLimit cost
  · obtain ⟨hallowed, hstored⟩ := slidingWindow_of_fits clock hfit
    simp [hfit, hallowed, hstored, q.record_fields_eq_iff, Quota.Unmarked]
  · obtain ⟨hallowed, hstored⟩ := slidingWindow_of_not_fits clock hfit
    simp [hfit, hallowed, hstored]

/-- A second execution finds the cost recorded if there was room for it. -/
theorem slidingWindow_again_spec (clock now window maxLimit cost : ℚ) (q : Quota) :
    ((slidingWindow clock now window maxLimit cost
        (slidingWindow clock now window maxLimit cost q).2).1.allowed = true ↔
        q.Fits now window maxLimit cost ∧ q.Fits now window maxLimit (cost + cost)) ∧
      ((slidingWindow clock now window maxLimit cost
        (slidingWindow clock now window maxLimit cost q).2).2.fields = q.fields ↔
        (q.Fits now window maxLimit cost → q.Unmarked now window cost)) := by
  by_cases hfit : q.Fits now window maxLimit cost
  · obtain ⟨-, hstored⟩ := slidingWindow_of_fits clock hfit
    obtain ⟨hverdict, -⟩ := slidingWindow_spec clock now window maxLimit cost
      (q.record clock now window cost)
    have hagain := q.fits_record clock now window maxLimit cost cost
    rw [hstored, hverdict, hagain]
    refine ⟨by simp [hfit], ?_⟩
    by_cases htwice : q.Fits now window maxLimit (cost + cost)
    · obtain ⟨-, hstored'⟩ := slidingWindow_of_fits clock (hagain.mpr htwice)
      simp [hstored', Quota.record_record, q.record_fields_eq_iff, hfit, Quota.Unmarked,
        add_self_eq_zero]
    · obtain ⟨-, hstored'⟩ := slidingWindow_of_not_fits clock (mt hagain.mp htwice)
      simp [hstored', q.record_fields_eq_iff, hfit, Quota.Unmarked]
  · obtain ⟨hallowed, hstored⟩ := slidingWindow_of_not_fits clock hfit
    simp [hstored, hallowed, hfit]

/-- What a call needs to be allowed: room for the cost, and after a lost reply for the cost
recorded twice. -/
def Quota.Admits (q : Quota) (o : Evalsha) (now window maxLimit cost : ℚ) : Prop :=
  q.Fits now window maxLimit cost ∧ (o = .replyLost → q.Fits now window maxLimit (cost + cost))

/-- A call in terms of the key before it; it touches no other key. -/
theorem evalWindow_spec (o : Evalsha) (clock : ℚ) (store : QuotaStore) (key : String)
    (now window maxLimit cost : ℤ) :
    ((evalWindow o clock store key now window maxLimit cost).1.allowed = true ↔
        (store key).Admits o now window maxLimit cost) ∧
      (((evalWindow o clock store key now window maxLimit cost).2 key).fields =
          (store key).fields ↔
        ((store key).Fits now window maxLimit cost → (store key).Unmarked now window cost)) ∧
      ∀ k, k ≠ key →
        (evalWindow o clock store key now window maxLimit cost).2 k = store k := by
  have hother : ∀ k, k ≠ key →
      (evalWindow o clock store key now window maxLimit cost).2 k = store k := by
    intro k hk
    cases o <;> simp [evalWindow, hk]
  refine ⟨?_, ?_, hother⟩
  all_goals
    cases o with
    | replied | notExecuted =>
      obtain ⟨hverdict, hfields⟩ := slidingWindow_spec clock now window maxLimit cost (store key)
      simp [evalWindow, Reply.toResult, Quota.Admits, hverdict, hfields]
    | replyLost =>
      obtain ⟨hverdict, hfields⟩ :=
        slidingWindow_again_spec clock now window maxLimit cost (store key)
      simp [evalWindow, Reply.toResult, Quota.Admits, hverdict, hfields]

/-! ## The charge of one call -/

/-- What a call adds to the key's count of the current bucket. -/
def charged (o : Evalsha) (clock : ℚ) (store : QuotaStore) (key : String)
    (now window maxLimit cost : ℤ) : ℚ :=
  ((evalWindow o clock store key now window maxLimit cost).2 key).value (currentBucket now window) -
    (store key).value (currentBucket now window)

/-- One execution charges the cost to the current bucket if there is room for it. -/
theorem slidingWindow_value (clock now window maxLimit cost : ℚ) (q : Quota) (b : ℤ) :
    (slidingWindow clock now window maxLimit cost q).2.value b =
      q.value b + if b = currentBucket now window ∧ q.Fits now window maxLimit cost then cost
        else 0 := by
  by_cases hfits : q.Fits now window maxLimit cost
  · rw [(slidingWindow_of_fits clock hfits).2]
    by_cases hb : b = currentBucket now window
    · simp [hb, hfits, Quota.value_record_current]
    · simp [hb, Quota.value_record_of_ne]
  · rw [(slidingWindow_of_not_fits clock hfits).2]
    simp [hfits]

/-- A call charges the cost if there is room for it, and once more if the reply is lost and there
is room for it twice. -/
theorem charged_eq (o : Evalsha) (clock : ℚ) (store : QuotaStore) (key : String)
    (now window maxLimit cost : ℤ) :
    charged o clock store key now window maxLimit cost =
      (if (store key).Fits now window maxLimit cost then (cost : ℚ) else 0) +
        if o = .replyLost ∧ (store key).Fits now window maxLimit cost ∧
          (store key).Fits now window maxLimit (cost + cost) then (cost : ℚ) else 0 := by
  cases o with
  | replied | notExecuted => simp [charged, evalWindow, slidingWindow_value]
  | replyLost =>
    by_cases hfits : (store key).Fits now window maxLimit cost
    · simp only [charged, evalWindow, Function.update_self, slidingWindow_value,
        (slidingWindow_of_fits clock hfits).2, Quota.fits_record, Quota.value_record_current,
        hfits]
      simp
      ring
    · simp [charged, evalWindow, (slidingWindow_of_not_fits clock hfits).2, hfits]

/-- A call charges at most the request's cost exactly if a negative cost fits and a positive cost
does not fit twice when the reply is lost. No other bucket changes. -/
theorem charged_le_iff (o : Evalsha) (clock : ℚ) (store : QuotaStore) (key : String)
    (now window maxLimit cost : ℤ) :
    (∀ b, b ≠ currentBucket now window →
        ((evalWindow o clock store key now window maxLimit cost).2 key).value b =
          (store key).value b) ∧
      (charged o clock store key now window maxLimit cost ≤ cost ↔
        (cost < 0 → (store key).Fits now window maxLimit cost) ∧
          (o = .replyLost → 0 < cost →
            ¬(store key).Fits now window maxLimit (cost + cost))) := by
  constructor
  · intro b hb
    cases o <;> simp [evalWindow, slidingWindow_value, hb]
  · rw [charged_eq]
    by_cases hfits : (store key).Fits now window maxLimit cost
    · by_cases htwice : o = .replyLost ∧ (store key).Fits now window maxLimit (cost + cost)
      · simp [hfits, htwice]
      · simp only [hfits, true_and, if_neg htwice]
        simp
        tauto
    · have hnever : 0 < cost → ¬(store key).Fits now window maxLimit (cost + cost) := by
        intro hpos htwice
        have hpos' : (0 : ℚ) < cost := by exact_mod_cast hpos
        apply hfits
        unfold Quota.Fits at htwice ⊢
        linarith
      simp [hfits]
      tauto

/-- The first request of an empty key is charged twice if the reply to it is lost. -/
theorem charged_twice :
    ¬charged .replyLost 0 (fun _ => Quota.empty) "ratelimit:t:rpm" 0 60 2 1 ≤ (1 : ℤ) := by
  rw [charged_eq]
  norm_num [Quota.Fits]

/-! ## Both dimensions -/

/-- The RPM dimension has room for one more request. -/
def Tenant.RpmFits (t : Tenant) (store : QuotaStore) (now : ℤ) : Prop :=
  (store t.rpmKey).Fits now windowSeconds t.rpmLimit 1

/-- The TPM dimension has room for the token cost. -/
def Tenant.TpmFits (t : Tenant) (store : QuotaStore) (now cost : ℤ) : Prop :=
  (store t.tpmKey).Fits now windowSeconds t.tpmLimit cost

/-- Both dimensions have room for the request, whatever becomes of the replies. -/
def Tenant.Admitted (t : Tenant) (o₁ o₂ : Evalsha) (store : QuotaStore) (now cost : ℤ) : Prop :=
  (store t.rpmKey).Admits o₁ now windowSeconds t.rpmLimit 1 ∧
    (store t.tpmKey).Admits o₂ now windowSeconds t.tpmLimit cost

/-- If `check_rate_limits` refuses the request, both keys hold what they held before. -/
def RejectionLeavesNoTrace (o₁ o₂ : Evalsha) (clock : ℚ) (store : QuotaStore) (t : Tenant)
    (now cost : ℤ) : Prop :=
  (checkRateLimits o₁ o₂ clock store t now cost).1.allowed = false →
    ((checkRateLimits o₁ o₂ clock store t now cost).2 t.rpmKey).fields =
        (store t.rpmKey).fields ∧
      ((checkRateLimits o₁ o₂ clock store t now cost).2 t.tpmKey).fields =
        (store t.tpmKey).fields

/-- The verdict, and when each key keeps its contents, in terms of the state before the call. -/
theorem checkRateLimits_spec (o₁ o₂ : Evalsha) (clock : ℚ) (store : QuotaStore) (t : Tenant)
    (now cost : ℤ) :
    ((checkRateLimits o₁ o₂ clock store t now cost).1.allowed = true ↔
        t.Admitted o₁ o₂ store now cost) ∧
      (((checkRateLimits o₁ o₂ clock store t now cost).2 t.rpmKey).fields =
          (store t.rpmKey).fields ↔ ¬t.RpmFits store now) ∧
      (((checkRateLimits o₁ o₂ clock store t now cost).2 t.tpmKey).fields =
          (store t.tpmKey).fields ↔
        (t.TpmFits store now cost → (store t.tpmKey).Unmarked now windowSeconds cost)) := by
  obtain ⟨hrpm, hrpmKept, hframe⟩ :=
    evalWindow_spec o₁ clock store t.rpmKey now windowSeconds t.rpmLimit 1
  obtain ⟨htpm, htpmKept, hframe'⟩ := evalWindow_spec o₂ clock
    (evalWindow o₁ clock store t.rpmKey now windowSeconds t.rpmLimit 1).2 t.tpmKey now
    windowSeconds t.tpmLimit cost
  -- Each call leaves the key of the other one alone.
  rw [hframe _ t.rpmKey_ne_tpmKey.symm] at htpm htpmKept
  refine ⟨?_, ?_, htpmKept⟩
  · simp only [checkRateLimits, buildInfo, Bool.and_eq_true, hrpm, htpm]
    simp [Tenant.Admitted]
  · rw [checkRateLimits, hframe' _ t.rpmKey_ne_tpmKey, hrpmKept]
    simp [Tenant.RpmFits, Quota.Unmarked]

/-- A request that is not admitted leaves no trace exactly when RPM has no room for it, and TPM
has none either or takes it at cost zero into a bucket that already exists. -/
theorem rejectionLeavesNoTrace_iff (o₁ o₂ : Evalsha) (clock : ℚ) (store : QuotaStore) (t : Tenant)
    (now cost : ℤ) :
    RejectionLeavesNoTrace o₁ o₂ clock store t now cost ↔
      t.Admitted o₁ o₂ store now cost ∨
        (¬t.RpmFits store now ∧
          (t.TpmFits store now cost → (store t.tpmKey).Unmarked now windowSeconds cost)) := by
  obtain ⟨hallowed, hrpm, htpm⟩ := checkRateLimits_spec o₁ o₂ clock store t now cost
  rw [RejectionLeavesNoTrace, hrpm, htpm, ← Bool.not_eq_true, hallowed]
  exact or_iff_not_imp_left.symm

/-- A first request of 150 tokens under limits of 3 requests and 100 tokens is refused and counts
as a request. -/
theorem rejection_charges_rpm :
    ¬RejectionLeavesNoTrace .replied .replied 1700000000 (fun _ => Quota.empty) ⟨"t", 3, 100⟩
      1700000000 150 := by
  obtain ⟨hallowed, hrpm, -⟩ := checkRateLimits_spec .replied .replied 1700000000
    (fun _ => Quota.empty) ⟨"t", 3, 100⟩ 1700000000 150
  have hroom : Tenant.RpmFits ⟨"t", 3, 100⟩ (fun _ => Quota.empty) 1700000000 := by
    norm_num [Tenant.RpmFits, Quota.Fits]
  have hfull : ¬Tenant.Admitted ⟨"t", 3, 100⟩ .replied .replied (fun _ => Quota.empty) 1700000000
      150 := by
    norm_num [Tenant.Admitted, Quota.Admits, Quota.Fits]
  intro h
  have hdenied := Bool.eq_false_iff.mpr (mt hallowed.mp hfull)
  exact hrpm.mp (h hdenied).1 hroom

end StigmergicMesh.RateLimit
