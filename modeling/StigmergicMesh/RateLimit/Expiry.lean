import StigmergicMesh.RateLimit.Admission

/-!
# What expiry forgets

Executions of the script on one key, each with the limit it is given, on a server clock that shows
the client's `now`. A key lives two windows past its last admission, so expiry forgets nothing that
a later execution reads: the replies are those of a key that never expires.
-/

namespace StigmergicMesh.RateLimit

open Ledger

/-- One execution, with the limit it is given. -/
structure Execution extends Request where
  maxLimit : ℚ

/-- Execute on a key that is empty at first. -/
def executeAll (expiring : Bool) (window : ℚ) (xs : List Execution) : Session :=
  xs.foldl (fun s x => s.serve expiring window x.maxLimit x.toRequest) ⟨Quota.empty, []⟩

/-- Under one limit throughout these are the requests served. -/
theorem executeAll_const (expiring : Bool) (window maxLimit : ℚ) (rs : List Request) :
    executeAll expiring window (rs.map fun r => ⟨r, maxLimit⟩) =
      serveAll expiring window maxLimit rs := by
  simp [executeAll, serveAll, List.foldl_map]

theorem executeAll_snoc (expiring : Bool) (window : ℚ) (xs : List Execution) (x : Execution) :
    executeAll expiring window (xs ++ [x]) =
      (executeAll expiring window xs).serve expiring window x.maxLimit x.toRequest := by
  simp [executeAll, List.foldl_append]

/-! ## The same replies -/

/-- The reply depends on the two counts that are read. -/
theorem slidingWindow_reply_congr (clock now window maxLimit cost : ℚ) {q q' : Quota}
    (hprev : q.value (currentBucket now window - 1) = q'.value (currentBucket now window - 1))
    (hcur : q.value (currentBucket now window) = q'.value (currentBucket now window)) :
    (slidingWindow clock now window maxLimit cost q).1 =
        (slidingWindow clock now window maxLimit cost q').1 ∧
      (q.Fits now window maxLimit cost ↔ q'.Fits now window maxLimit cost) := by
  have hweighted : q.weighted now window = q'.weighted now window := by
    rw [Quota.weighted, Quota.weighted, hprev, hcur]
  refine ⟨?_, by rw [Quota.Fits, Quota.Fits, hweighted]⟩
  simp only [slidingWindow, hweighted]
  split
  · rfl
  · simp only [Quota.value_record_current, hprev, hcur]

/-- What holds between a key that can expire and one that cannot, after the same executions at
times up to `T`: they differ only in buckets that are two buckets old. -/
structure Shadows (window T : ℚ) (q k : Quota) : Prop where
  values : ∀ b : ℤ, T < (b + 2) * window → q.value b = k.value b
  past : ∀ b : ℤ, k.value b ≠ 0 → b * window ≤ T
  /-- A key outlives the buckets it holds. -/
  deadline : ∀ b : ℤ, k.value b ≠ 0 → T < (b + 2) * window →
    ∃ d, q.expireAt = some d ∧ (b + 2) * window ≤ d

theorem Shadows.mono {window T T' : ℚ} {q k : Quota} (h : Shadows window T q k) (hT : T ≤ T') :
    Shadows window T' q k where
  values b hb := h.values b (lt_of_le_of_lt hT hb)
  past b hb := (h.past b hb).trans hT
  deadline b hvalue hb := h.deadline b hvalue (lt_of_le_of_lt hT hb)

/-- Expiry forgets only buckets that are two buckets old. -/
theorem Shadows.live {window now : ℚ} {q k : Quota} (h : Shadows window now q k) :
    Shadows window now (q.live now) k := by
  unfold Quota.live
  split
  · exact h
  · rename_i d hd
    split
    · rename_i hexpired
      have hgone : ∀ b : ℤ, now < (b + 2) * window → k.value b = 0 := by
        intro b hb
        by_contra hvalue
        obtain ⟨d', hd', hlate⟩ := h.deadline b hvalue hb
        obtain rfl : d = d' := by simpa [hd] using hd'
        linarith
      refine ⟨fun b hb => ?_, h.past, fun b hvalue hb => absurd (hgone b hb) hvalue⟩
      rw [hgone b hb]
      rfl
    · exact h

/-- An admission writes the same count into both and puts the deadline off. -/
theorem Shadows.record {window now : ℚ} (hw : 0 < window) {q k : Quota}
    (h : Shadows window now q k) (cost : ℚ) :
    Shadows window now (q.record now now window cost) (k.record now now window cost) := by
  have hpast : ∀ b : ℤ, (k.record now now window cost).value b ≠ 0 → b * window ≤ now := by
    intro b hb
    by_cases hcurrent : b = currentBucket now window
    · rw [hcurrent]
      exact (inBucket_currentBucket now hw).1
    · rw [Quota.value_record_of_ne _ _ _ _ _ hcurrent] at hb
      exact h.past b hb
  refine ⟨fun b hb => ?_, hpast, fun b hvalue _ => ⟨now + window * 2, rfl, ?_⟩⟩
  · have hbefore := h.values b hb
    by_cases hcurrent : b = currentBucket now window
    · subst hcurrent
      rw [Quota.value_record_current, Quota.value_record_current, hbefore]
    · rw [Quota.value_record_of_ne _ _ _ _ _ hcurrent, Quota.value_record_of_ne _ _ _ _ _ hcurrent,
        hbefore]
  · linarith [hpast b hvalue]

/-- One execution gives the same reply on both and keeps them in step. -/
theorem Shadows.execute {window now : ℚ} (hw : 0 < window) (maxLimit cost : ℚ) {q k : Quota}
    (h : Shadows window now q k) :
    (slidingWindow now now window maxLimit cost q).1 =
        (slidingWindow now now window maxLimit cost k).1 ∧
      Shadows window now (slidingWindow now now window maxLimit cost q).2
        (slidingWindow now now window maxLimit cost k).2 := by
  obtain ⟨hreply, hverdict⟩ := slidingWindow_reply_congr now now window maxLimit cost
    (h.values _ (currentBucket_lt hw le_rfl)) (h.values _ (currentBucket_lt hw (by omega)))
  refine ⟨hreply, ?_⟩
  by_cases hfits : k.Fits now window maxLimit cost
  · rw [(slidingWindow_of_fits now hfits).2, (slidingWindow_of_fits now (hverdict.mpr hfits)).2]
    exact h.record hw cost
  · rw [(slidingWindow_of_not_fits now hfits).2,
      (slidingWindow_of_not_fits now (mt hverdict.mp hfits)).2]
    exact h

/-- Executions at times that do not decrease keep the two in step throughout. -/
theorem executeAll_shadows {window : ℚ} (hw : 0 < window) (xs : List Execution)
    (hsorted : xs.Pairwise (fun x y => x.now ≤ y.now)) :
    (executeAll true window xs).log = (executeAll false window xs).log ∧
      ∀ T, (∀ x ∈ xs, x.now ≤ T) →
        Shadows window T (executeAll true window xs).quota (executeAll false window xs).quota := by
  induction xs using List.reverseRecOn with
  | nil =>
    refine ⟨rfl, fun T _ => ⟨fun _ _ => rfl, ?_, ?_⟩⟩
    · intro b hb
      exact absurd rfl hb
    · intro b hb
      exact absurd rfl hb
  | append_singleton xs x ih =>
    obtain ⟨hxs, -, hlast⟩ := List.pairwise_append.mp hsorted
    obtain ⟨hlog, hshadows⟩ := ih hxs
    have hbefore := (hshadows x.now fun y hy => hlast y hy x (by simp)).live
    obtain ⟨hreply, hafter⟩ := hbefore.execute hw x.maxLimit x.cost
    rw [executeAll_snoc, executeAll_snoc]
    refine ⟨?_, fun T hT => hafter.mono (hT x (by simp))⟩
    simp only [Session.serve, if_true, Bool.false_eq_true, if_false, hlog, hreply]

/-- Every reply is the one that a key without expiry gives. -/
theorem expiry_invisible {window : ℚ} (hw : 0 < window) (xs : List Execution)
    (hsorted : xs.Pairwise (fun x y => x.now ≤ y.now)) :
    (executeAll true window xs).log = (executeAll false window xs).log :=
  (executeAll_shadows hw xs hsorted).1

/-- The third execution comes when the key of the first one has just expired. -/
theorem expiry_invisible_at_deadline :
    (executeAll true 60 [⟨⟨0, 1⟩, 1⟩, ⟨⟨119, 2⟩, 1⟩, ⟨⟨120, 1⟩, 1⟩]).log =
      (executeAll false 60 [⟨⟨0, 1⟩, 1⟩, ⟨⟨119, 2⟩, 1⟩, ⟨⟨120, 1⟩, 1⟩]).log :=
  expiry_invisible (by norm_num) _ (by norm_num)

end StigmergicMesh.RateLimit
