import StigmergicMesh.Library.SlidingWindow
import StigmergicMesh.RateLimit.Script

/-!
# What the sliding window admits

A run of script executions on one key keeps a ledger of the admitted costs. While the key cannot
expire, its fields are the bucket totals of that ledger. With expiry they are so for the buckets
that any later execution reads, because a key lives two windows past its last admission. Either
way the ledger grows by the two-bucket rule, whose bounds then hold of the script.
-/

namespace StigmergicMesh.RateLimit

open Ledger

/-- One execution of the script on a key. -/
structure Request where
  now : ℚ
  cost : ℚ

/-- A key and the replies given so far. -/
structure Session where
  quota : Quota
  log : List (Request × Reply)

/-- Serve one request; `expiring` says whether the key can expire, on a clock equal to `now`. -/
def Session.serve (expiring : Bool) (window maxLimit : ℚ) (s : Session) (r : Request) : Session :=
  let quota := if expiring then s.quota.live r.now else s.quota
  let (reply, quota') := slidingWindow r.now r.now window maxLimit r.cost quota
  ⟨quota', s.log ++ [(r, reply)]⟩

/-- Serve requests on a key that is empty at first. -/
def serveAll (expiring : Bool) (window maxLimit : ℚ) (rs : List Request) : Session :=
  rs.foldl (Session.serve expiring window maxLimit) ⟨Quota.empty, []⟩

/-- When which costs were admitted. -/
def Session.admitted (s : Session) : List (ℚ × ℚ) :=
  (s.log.filter (fun e => e.2.allowed)).map (fun e => (e.1.now, e.1.cost))

theorem serveAll_snoc (expiring : Bool) (window maxLimit : ℚ) (rs : List Request) (r : Request) :
    serveAll expiring window maxLimit (rs ++ [r]) =
      (serveAll expiring window maxLimit rs).serve expiring window maxLimit r := by
  simp [serveAll, List.foldl_append]

theorem inBucket_currentBucket (now : ℚ) {window : ℚ} (hw : 0 < window) :
    InBucket window (currentBucket now window) now := by
  have h₀ := Int.floor_le (now / window)
  have h₁ := Int.lt_floor_add_one (now / window)
  rw [le_div_iff₀ hw] at h₀
  rw [div_lt_iff₀ hw] at h₁
  exact ⟨h₀, h₁⟩

/-- The quota a request is served from. -/
def Session.quotaAt (s : Session) (expiring : Bool) (now : ℚ) : Quota :=
  if expiring then s.quota.live now else s.quota

/-- A request either fits and is recorded in key and ledger, or changes neither. -/
theorem Session.serve_cases (expiring : Bool) (window maxLimit : ℚ) (s : Session) (r : Request) :
    ((s.quotaAt expiring r.now).Fits r.now window maxLimit r.cost ∧
        (s.serve expiring window maxLimit r).quota =
          (s.quotaAt expiring r.now).record r.now r.now window r.cost ∧
        (s.serve expiring window maxLimit r).admitted = s.admitted ++ [(r.now, r.cost)]) ∨
      ((s.serve expiring window maxLimit r).quota = s.quotaAt expiring r.now ∧
        (s.serve expiring window maxLimit r).admitted = s.admitted) := by
  by_cases h : (s.quotaAt expiring r.now).Fits r.now window maxLimit r.cost
  · obtain ⟨hok, hq⟩ := slidingWindow_of_fits r.now h
    refine Or.inl ⟨h, hq, ?_⟩
    simp only [Session.quotaAt] at hok
    simp [Session.serve, Session.admitted, List.filter_append, hok]
  · obtain ⟨hno, hq⟩ := slidingWindow_of_not_fits r.now h
    refine Or.inr ⟨hq, ?_⟩
    simp only [Session.quotaAt] at hno
    simp [Session.serve, Session.admitted, List.filter_append, hno]

/-- The two fields the script reads for a request at `now` hold the ledger's bucket totals. -/
def Reads (q : Quota) (window : ℚ) (ledger : List (ℚ × ℚ)) (now : ℚ) : Prop :=
  ∀ b : ℤ, currentBucket now window - 1 ≤ b → q.value b = spent (InBucket window b) ledger

/-- A request that fits extends the ledger by the two-bucket rule. -/
theorem Reads.admissible {q : Quota} {window maxLimit : ℚ} (hw : 0 < window)
    {ledger : List (ℚ × ℚ)} {r : Request} (hreads : Reads q window ledger r.now)
    (hadm : Admissible window maxLimit ledger) (hcost : 0 ≤ r.cost)
    (hfits : q.Fits r.now window maxLimit r.cost) :
    Admissible window maxLimit (ledger ++ [(r.now, r.cost)]) := by
  refine .accept hadm hcost (inBucket_currentBucket _ hw) ?_
  rw [← hreads _ le_rfl, ← hreads _ (by omega)]
  exact hfits

/-- Recording a cost adds it to the total of the current bucket in key and ledger alike. -/
theorem value_record {q : Quota} {window : ℚ} (hw : 0 < window) {ledger : List (ℚ × ℚ)}
    {r : Request} (clock : ℚ) {b : ℤ} (h : q.value b = spent (InBucket window b) ledger) :
    (q.record clock r.now window r.cost).value b =
      spent (InBucket window b) (ledger ++ [(r.now, r.cost)]) := by
  rw [spent_snoc, ← h]
  by_cases hb : b = currentBucket r.now window
  · subst hb
    rw [if_pos (inBucket_currentBucket _ hw)]
    simp [Quota.record, Quota.value]
  · have hnot : ¬InBucket window b r.now := fun hin =>
      hb (hin.unique hw (inBucket_currentBucket _ hw))
    rw [if_neg hnot]
    simp [Quota.record, Quota.value, Function.update_of_ne hb]

/-! ## Without expiry -/

/-- The fields are the bucket totals of the ledger, which the two-bucket rule has built. -/
theorem serveAll_totals {window maxLimit : ℚ} (hw : 0 < window) (rs : List Request)
    (hcost : ∀ r ∈ rs, 0 ≤ r.cost) :
    (∀ b, (serveAll false window maxLimit rs).quota.value b =
        spent (InBucket window b) (serveAll false window maxLimit rs).admitted) ∧
      Admissible window maxLimit (serveAll false window maxLimit rs).admitted := by
  induction rs using List.reverseRecOn with
  | nil => exact ⟨fun b => rfl, .nil⟩
  | append_singleton rs r ih =>
    obtain ⟨htotals, hadm⟩ := ih fun r hr => hcost r (List.mem_append_left _ hr)
    rw [serveAll_snoc]
    set s := serveAll false window maxLimit rs
    rcases s.serve_cases false window maxLimit r with ⟨hfits, hq, hlog⟩ | ⟨hq, hlog⟩
    · rw [hq, hlog]
      refine ⟨fun b => value_record hw r.now (htotals b), ?_⟩
      exact Reads.admissible hw (fun b _ => htotals b) hadm (hcost r (by simp)) hfits
    · rw [hq, hlog]
      exact ⟨htotals, hadm⟩

/-! ## With expiry -/

/-- What holds between a key that can expire and the ledger, when every request so far came at
or before `T`. -/
structure Remembers (window T : ℚ) (s : Session) : Prop where
  before : ∀ e ∈ s.admitted, e.1 ≤ T
  deadline : ∀ d, s.quota.expireAt = some d → ∀ e ∈ s.admitted, e.1 + window * 2 ≤ d
  /-- A total may be forgotten once its bucket is two buckets old. -/
  totals : ∀ b : ℤ, T < (b + 2) * window →
    s.quota.value b = spent (InBucket window b) s.admitted

/-- Letting the key expire forgets only buckets that are two buckets old. -/
theorem Remembers.live {window T now : ℚ} {s : Session} (h : Remembers window T s)
    (hT : T ≤ now) :
    (∀ b : ℤ, now < (b + 2) * window →
        (s.quota.live now).value b = spent (InBucket window b) s.admitted) ∧
      ∀ d, (s.quota.live now).expireAt = some d → ∀ e ∈ s.admitted, e.1 + window * 2 ≤ d := by
  have kept := fun (b : ℤ) (hb : now < (b + 2) * window) => h.totals b (lt_of_le_of_lt hT hb)
  unfold Quota.live
  split
  · exact ⟨kept, h.deadline⟩
  · rename_i d hd
    split
    · rename_i hexpired
      refine ⟨fun b hb => ?_, by simp [Quota.empty]⟩
      have hnone : spent (InBucket window b) s.admitted = 0 := by
        refine spent_eq_zero _ fun e he hin => ?_
        have := h.deadline d hd e he
        linarith [hin.1]
      rw [hnone]
      rfl
    · exact ⟨kept, h.deadline⟩

theorem currentBucket_lt {now window : ℚ} (hw : 0 < window) {b : ℤ}
    (hb : currentBucket now window - 1 ≤ b) : now < (b + 2) * window := by
  have hlt := (inBucket_currentBucket now hw).2
  have hcast : ((currentBucket now window : ℤ) : ℚ) ≤ b + 1 := by exact_mod_cast (by omega)
  nlinarith

/-- One request more, at a time no earlier than the ones before. -/
theorem Remembers.serve {window T : ℚ} (maxLimit : ℚ) (hw : 0 < window) {s : Session}
    {r : Request} (h : Remembers window r.now s) (hT : r.now ≤ T) :
    Remembers window T (s.serve true window maxLimit r) := by
  obtain ⟨htotals, hdeadline⟩ := h.live le_rfl
  rcases s.serve_cases true window maxLimit r with ⟨-, hq, hlog⟩ | ⟨hq, hlog⟩
  · refine ⟨?_, ?_, fun b hb => ?_⟩
    · rw [hlog]
      exact List.forall_mem_append.mpr
        ⟨fun e he => (h.before e he).trans hT, List.forall_mem_singleton.mpr hT⟩
    · rw [hlog, hq]
      intro d hd
      obtain rfl : r.now + window * 2 = d := by simpa [Quota.record] using hd
      refine List.forall_mem_append.mpr ⟨fun e he => ?_, List.forall_mem_singleton.mpr le_rfl⟩
      linarith [h.before e he]
    · rw [hlog, hq]
      exact value_record hw r.now (htotals b (lt_of_le_of_lt hT hb))
  · refine ⟨?_, ?_, fun b hb => ?_⟩
    · rw [hlog]; exact fun e he => (h.before e he).trans hT
    · rw [hlog, hq]; exact hdeadline
    · rw [hlog, hq]; exact htotals b (lt_of_le_of_lt hT hb)

/-- Serving requests at times that do not decrease keeps what the script reads exact. -/
theorem serveAll_remembers {window : ℚ} (maxLimit : ℚ) (hw : 0 < window) (rs : List Request)
    (hsorted : rs.Pairwise (fun r r' => r.now ≤ r'.now)) :
    ∀ T, (∀ r ∈ rs, r.now ≤ T) → Remembers window T (serveAll true window maxLimit rs) := by
  induction rs using List.reverseRecOn with
  | nil =>
    exact fun T _ => ⟨by simp [serveAll, Session.admitted], by simp [serveAll, Quota.empty],
      fun b _ => rfl⟩
  | append_singleton rs r ih =>
    obtain ⟨hrs, -, hlast⟩ := List.pairwise_append.mp hsorted
    have hpast := ih hrs r.now fun r' hr' => hlast r' hr' r (by simp)
    rw [serveAll_snoc]
    exact fun T hT => hpast.serve maxLimit hw (hT r (by simp))

/-- The ledger of such a session is ordered in time and follows the two-bucket rule. -/
theorem serveAll_admissible {window : ℚ} (maxLimit : ℚ) (hw : 0 < window) (rs : List Request)
    (hcost : ∀ r ∈ rs, 0 ≤ r.cost) (hsorted : rs.Pairwise (fun r r' => r.now ≤ r'.now)) :
    (serveAll true window maxLimit rs).admitted.Pairwise (fun e f => e.1 ≤ f.1) ∧
      Admissible window maxLimit (serveAll true window maxLimit rs).admitted := by
  induction rs using List.reverseRecOn with
  | nil => exact ⟨.nil, .nil⟩
  | append_singleton rs r ih =>
    obtain ⟨hrs, -, hlast⟩ := List.pairwise_append.mp hsorted
    obtain ⟨hpair, hadm⟩ := ih (fun r hr => hcost r (List.mem_append_left _ hr)) hrs
    have hpast := serveAll_remembers maxLimit hw rs hrs r.now
      fun r' hr' => hlast r' hr' r (by simp)
    rw [serveAll_snoc]
    set s := serveAll true window maxLimit rs
    rcases s.serve_cases true window maxLimit r with ⟨hfits, -, hlog⟩ | ⟨-, hlog⟩
    · rw [hlog]
      refine ⟨List.pairwise_append.mpr ⟨hpair, List.pairwise_singleton _ _, ?_⟩, ?_⟩
      · intro e he f hf
        rw [List.mem_singleton.mp hf]
        exact hpast.before e he
      · exact Reads.admissible hw
          (fun b hb => (hpast.live le_rfl).1 b (currentBucket_lt hw hb)) hadm (hcost r (by simp))
          hfits
    · rw [hlog]
      exact ⟨hpair, hadm⟩

/-! ## The bounds -/

/-- Whole seconds split into a bucket of whole seconds and an offset. -/
theorem inBucket_ediv {window : ℤ} (hw : 0 < window) (t : ℤ) :
    InBucket (window : ℚ) (t / window) t ∧
      (t : ℚ) - (t / window : ℤ) * window = (t % window : ℤ) := by
  have h₀ := Int.emod_nonneg t hw.ne'
  have h₁ := Int.emod_lt_of_pos t hw
  have hsplit : (t : ℚ) = (t / window : ℤ) * window + (t % window : ℤ) := by
    exact_mod_cast (Int.ediv_mul_add_emod t window).symm
  have h₀' : (0 : ℚ) ≤ (t % window : ℤ) := by exact_mod_cast h₀
  have h₁' : ((t % window : ℤ) : ℚ) < window := by exact_mod_cast h₁
  exact ⟨⟨by linarith, by linarith⟩, by linarith⟩

/-- The admission bounds of the script: per bucket without expiry, in whatever order the times
come, and per sliding window with expiry when they do not decrease. -/
theorem admission_bounds (window : ℤ) (hw : 0 < window) (maxLimit : ℚ) (hM : 0 ≤ maxLimit)
    (rs : List Request) (hcost : ∀ r ∈ rs, 0 ≤ r.cost) :
    (∀ b : ℤ, spent (InBucket (window : ℚ) b) (serveAll false window maxLimit rs).admitted ≤
        maxLimit) ∧
      (rs.Pairwise (fun r r' => r.now ≤ r'.now) → ∀ t : ℤ,
        spent (InWindow (window : ℚ) t) (serveAll true window maxLimit rs).admitted ≤
          maxLimit * (1 + (t % window : ℤ) / window)) := by
  have hw' : (0 : ℚ) < window := by exact_mod_cast hw
  refine ⟨fun b => (serveAll_totals hw' rs hcost).2.bucket_le hw' hM b, fun hsorted t => ?_⟩
  obtain ⟨hpair, hadm⟩ := serveAll_admissible maxLimit hw' rs hcost hsorted
  obtain ⟨hbucket, hoffset⟩ := inBucket_ediv hw t
  have hbound := hadm.window_le hw' hM hpair hbucket
  rwa [hoffset] at hbound

/-- Three requests around a bucket boundary, under a limit of two. -/
theorem admission_bounds_boundary :
    spent (InWindow ((60 : ℤ) : ℚ) (30 : ℤ))
        (serveAll true ((60 : ℤ) : ℚ) 2 [⟨45, 1⟩, ⟨59, 1⟩, ⟨75, 1⟩]).admitted ≤
      2 * (1 + ((30 % 60 : ℤ) : ℚ) / (60 : ℤ)) :=
  (admission_bounds 60 (by decide) 2 (by decide) [⟨45, 1⟩, ⟨59, 1⟩, ⟨75, 1⟩]
    (by simp)).2 (by norm_num) 30

end StigmergicMesh.RateLimit
