import Mathlib.Data.Rat.Floor
import Mathlib.Tactic.NormNum

/-!
# The rate limiter

`SLIDING_WINDOW_LUA` over one quota key, the client call `_eval_window` around it, and
`check_rate_limits` over a tenant's two keys. Numbers are exact rationals; a key's hash maps the
bucket index, which the script renders with `tostring`, to the cost accumulated in the bucket.
-/

namespace StigmergicMesh.RateLimit

/-! ## The script -/

/-- One `ratelimit:<tenant>:<dimension>` key. An absent key has no fields. -/
structure Quota where
  fields : ℤ → Option ℚ
  expireAt : Option ℚ

/-- The four numbers the script returns, before Redis converts them. -/
structure Reply where
  allowed : Bool
  usage : ℚ
  remaining : ℚ
  reset : ℚ

def Quota.empty : Quota := ⟨fun _ => none, none⟩

/-- `current_val or 0`, after `HGET` and `tonumber`. -/
def Quota.value (q : Quota) (bucket : ℤ) : ℚ := (q.fields bucket).getD 0

/-- `math.floor(now / bucket_dur)`. -/
def currentBucket (now window : ℚ) : ℤ := ⌊now / window⌋

/-- `fraction`: how far `now` is into its bucket. -/
def fraction (now window : ℚ) : ℚ := (now - currentBucket now window * window) / window

/-- `weighted`, the usage blended from the previous and the current bucket. -/
def Quota.weighted (q : Quota) (now window : ℚ) : ℚ :=
  q.value (currentBucket now window - 1) * (1 - fraction now window) +
    q.value (currentBucket now window)

/-- Seconds until the next bucket starts. -/
def resetAfter (now window : ℚ) : ℚ := (currentBucket now window + 1) * window - now

/-- `HSET` of the current bucket and `EXPIRE key, window * 2` on the server's clock. -/
def Quota.record (q : Quota) (clock now window cost : ℚ) : Quota where
  fields := Function.update q.fields (currentBucket now window)
    (some (q.value (currentBucket now window) + cost))
  expireAt := some (clock + window * 2)

/-- `SLIDING_WINDOW_LUA`. -/
def slidingWindow (clock now window maxLimit cost : ℚ) (q : Quota) : Reply × Quota :=
  let weighted := q.weighted now window
  if weighted + cost > maxLimit then
    (⟨false, weighted, maxLimit - weighted, resetAfter now window⟩, q)
  else
    -- The reply is computed from the new current value and the old previous one.
    let q' := q.record clock now window cost
    let weighted' := q.value (currentBucket now window - 1) * (1 - fraction now window) +
      q'.value (currentBucket now window)
    (⟨true, weighted', maxLimit - weighted', resetAfter now window⟩, q')

/-- What is left of a key at a time of the server's clock: nothing once it has expired. -/
def Quota.live (q : Quota) (clock : ℚ) : Quota :=
  match q.expireAt with
  | none => q
  | some deadline => if deadline ≤ clock then Quota.empty else q

/-! ## The client -/

/-- How an `EVALSHA` can end: with a reply, unexecuted because the script is unknown, or executed
with the reply lost on the way back. -/
inductive Evalsha where
  | replied
  | notExecuted
  | replyLost
  deriving DecidableEq, Repr

/-- `(allowed, current_usage, remaining, reset_seconds)`. -/
structure WindowResult where
  allowed : Bool
  usage : ℤ
  remaining : ℤ
  reset : ℤ
  deriving DecidableEq, Repr

/-- Redis cuts the fraction off a Lua number in a reply. -/
def truncate (x : ℚ) : ℤ := if 0 ≤ x then ⌊x⌋ else ⌈x⌉

def Reply.toResult (r : Reply) : WindowResult :=
  ⟨r.allowed, truncate r.usage, truncate r.remaining, truncate r.reset⟩

abbrev QuotaStore := String → Quota

/-- `_eval_window` once the script is loaded: `EVALSHA`, and on any exception `EVAL`. -/
def evalWindow (outcome : Evalsha) (clock : ℚ) (store : QuotaStore) (key : String)
    (now window maxLimit cost : ℤ) : WindowResult × QuotaStore :=
  let execute (q : Quota) := slidingWindow clock now window maxLimit cost q
  let first := execute (store key)
  match outcome with
  | .replied => (first.1.toResult, Function.update store key first.2)
  | .notExecuted => (first.1.toResult, Function.update store key first.2)
  | .replyLost =>
    let second := execute first.2
    (second.1.toResult, Function.update store key second.2)

/-- The attributes of a tenant that the limiter reads. -/
structure Tenant where
  tenantId : String
  rpmLimit : ℤ
  tpmLimit : ℤ

/-- The breakdown of one dimension in `info`. -/
structure Dimension where
  limit : ℤ
  remaining : ℤ
  reset : ℤ
  allowed : Bool
  deriving DecidableEq, Repr

/-- `info`; the binding dimension comes first. `exceeded` lists the dimensions whose
`stigmergic_rate_limit_exceeded_total` is incremented. -/
structure Info where
  allowed : Bool
  limit : ℤ
  remaining : ℤ
  reset : ℤ
  rpm : Dimension
  tpm : Dimension
  exceeded : List String
  deriving DecidableEq, Repr

/-- `WINDOW_SECONDS`. -/
def windowSeconds : ℤ := 60

def Tenant.rpmKey (t : Tenant) : String := "ratelimit:" ++ t.tenantId ++ ":rpm"

def Tenant.tpmKey (t : Tenant) : String := "ratelimit:" ++ t.tenantId ++ ":tpm"

def buildInfo (tenant : Tenant) (rpm tpm : WindowResult) : Info :=
  let binding : ℤ × ℤ × ℤ :=
    if !rpm.allowed then (tenant.rpmLimit, rpm.remaining, rpm.reset)
    else if !tpm.allowed then (tenant.tpmLimit, tpm.remaining, tpm.reset)
    else if rpm.remaining ≤ tpm.remaining then (tenant.rpmLimit, rpm.remaining, rpm.reset)
    else (tenant.tpmLimit, tpm.remaining, tpm.reset)
  { allowed := rpm.allowed && tpm.allowed
    limit := binding.1
    remaining := binding.2.1
    reset := binding.2.2
    rpm := ⟨tenant.rpmLimit, rpm.remaining, rpm.reset, rpm.allowed⟩
    tpm := ⟨tenant.tpmLimit, tpm.remaining, tpm.reset, tpm.allowed⟩
    exceeded := (if rpm.allowed then [] else ["rpm"]) ++ if tpm.allowed then [] else ["tpm"] }

/-- `check_rate_limits`: the request against the RPM key, then against the TPM key, whatever the
first one said. -/
def checkRateLimits (rpmOutcome tpmOutcome : Evalsha) (clock : ℚ) (store : QuotaStore)
    (tenant : Tenant) (now promptTokenCost : ℤ) : Info × QuotaStore :=
  let (rpm, store) :=
    evalWindow rpmOutcome clock store tenant.rpmKey now windowSeconds tenant.rpmLimit 1
  let (tpm, store) :=
    evalWindow tpmOutcome clock store tenant.tpmKey now windowSeconds tenant.tpmLimit
      promptTokenCost
  (buildInfo tenant rpm tpm, store)

/-! ## What one execution does -/

/-- The script's admission test. -/
def Quota.Fits (q : Quota) (now window maxLimit cost : ℚ) : Prop :=
  q.weighted now window + cost ≤ maxLimit

instance (q : Quota) (now window maxLimit cost : ℚ) : Decidable (q.Fits now window maxLimit cost) :=
  inferInstanceAs (Decidable (_ ≤ _))

theorem slidingWindow_of_fits (clock : ℚ) {now window maxLimit cost : ℚ} {q : Quota}
    (h : q.Fits now window maxLimit cost) :
    (slidingWindow clock now window maxLimit cost q).1.allowed = true ∧
      (slidingWindow clock now window maxLimit cost q).2 = q.record clock now window cost := by
  simp [slidingWindow, not_lt.mpr h]

/-- A rejected execution leaves the key as it was. -/
theorem slidingWindow_of_not_fits (clock : ℚ) {now window maxLimit cost : ℚ} {q : Quota}
    (h : ¬q.Fits now window maxLimit cost) :
    (slidingWindow clock now window maxLimit cost q).1.allowed = false ∧
      (slidingWindow clock now window maxLimit cost q).2 = q := by
  simp [slidingWindow, not_le.mp h]

@[simp] theorem Quota.value_record_current (q : Quota) (clock now window cost : ℚ) :
    (q.record clock now window cost).value (currentBucket now window) =
      q.value (currentBucket now window) + cost := by
  simp [Quota.record, Quota.value]

theorem Quota.value_record_of_ne (q : Quota) (clock now window cost : ℚ) {b : ℤ}
    (hb : b ≠ currentBucket now window) :
    (q.record clock now window cost).value b = q.value b := by
  simp [Quota.record, Quota.value, Function.update_of_ne hb]

/-- Recording a cost leaves the fields as they were only if there was nothing to record. -/
theorem Quota.record_fields_eq_iff (q : Quota) (clock now window cost : ℚ) :
    (q.record clock now window cost).fields = q.fields ↔
      cost = 0 ∧ (q.fields (currentBucket now window)).isSome := by
  simp only [Quota.record, Function.update_eq_self_iff, Quota.value]
  cases q.fields (currentBucket now window) <;> simp [eq_comm]

/-- Two costs recorded at one time are their sum recorded once. -/
theorem Quota.record_record (q : Quota) (clock now window c d : ℚ) :
    ((q.record clock now window c).record clock now window d).fields =
      (q.record clock now window (c + d)).fields := by
  simp [Quota.record, Quota.value, add_assoc]

/-- What is left later of what is left now. -/
theorem Quota.live_live (q : Quota) {clock clock' : ℚ} (h : clock ≤ clock') :
    (q.live clock).live clock' = q.live clock' := by
  cases hdeadline : q.expireAt with
  | none => simp [Quota.live, hdeadline]
  | some d =>
    by_cases hgone : d ≤ clock
    · simp [Quota.live, hdeadline, hgone, hgone.trans h, Quota.empty]
    · simp [Quota.live, hdeadline, hgone]

/-- A key that was just written has two windows to live. -/
theorem Quota.live_record (q : Quota) {clock clock' window : ℚ} (now cost : ℚ)
    (h : clock' < clock + window * 2) :
    (q.record clock now window cost).live clock' = q.record clock now window cost := by
  simp [Quota.live, Quota.record, not_le.mpr h]

@[simp] theorem Quota.weighted_empty (now window : ℚ) : Quota.empty.weighted now window = 0 := by
  simp [Quota.weighted, Quota.value, Quota.empty]

/-- A cost is recorded in full: the bucket it goes to is not the one that fades. -/
@[simp] theorem Quota.weighted_record (q : Quota) (clock now window cost : ℚ) :
    (q.record clock now window cost).weighted now window = q.weighted now window + cost := by
  simp [Quota.weighted, Quota.value, Quota.record, add_assoc]

/-- After one cost there is room for another if there was room for both. -/
theorem Quota.fits_record (q : Quota) (clock now window maxLimit c d : ℚ) :
    (q.record clock now window c).Fits now window maxLimit d ↔
      q.Fits now window maxLimit (c + d) := by
  rw [Quota.Fits, Quota.Fits, Quota.weighted_record, add_assoc]

end StigmergicMesh.RateLimit
