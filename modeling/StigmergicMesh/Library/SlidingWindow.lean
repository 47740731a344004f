import Mathlib.Algebra.Order.Field.Basic
import Mathlib.Algebra.BigOperators.Group.List.Basic
import Mathlib.Algebra.Order.BigOperators.Group.List
import Mathlib.Data.List.Induction
import Mathlib.Tactic.Linarith
import Mathlib.Tactic.Ring

/-!
# Ledgers and the two-bucket sliding window

A ledger lists what was spent and when. Time is cut into buckets of length `W`; the two-bucket
rule admits a cost at time `x` of bucket `c` when what bucket `c` holds, plus what bucket `c - 1`
holds weighted by the part of it a window ending at `x` still covers, leaves room for it under
the limit `M`.

`Admissible.bucket_le` bounds what any one bucket holds, in whatever order the times come;
`Admissible.window_le` bounds what is spent in any interval of length `W` when times do not
decrease. What the rule counts, `blend`, then stays within the limit and only falls while nothing
is spent.
-/

namespace StigmergicMesh.Ledger

variable {K : Type*} [Field K]

/-- In a list in order of time the last entry is the latest. -/
theorem le_last_of_sorted {α β : Type*} [Preorder β] {f : α → β} {l : List α} {x : α}
    (h : (l ++ [x]).Pairwise (fun a b => f a ≤ f b)) : ∀ a ∈ l ++ [x], f a ≤ f x := by
  obtain ⟨-, -, hlast⟩ := List.pairwise_append.mp h
  refine List.forall_mem_append.mpr ⟨fun a ha => ?_, List.forall_mem_singleton.mpr le_rfl⟩
  exact hlast a ha x (List.mem_singleton_self x)

/-- What the ledger's entries at times satisfying `p` add up to. -/
def spent (p : K → Prop) [DecidablePred p] (l : List (K × K)) : K :=
  ((l.filter (fun e => p e.1)).map Prod.snd).sum

/-! ## Sums over a ledger -/

section Sums

variable (p q r : K → Prop) [DecidablePred p] [DecidablePred q] [DecidablePred r]

@[simp] theorem spent_nil : spent p ([] : List (K × K)) = 0 := rfl

theorem spent_cons (e : K × K) (l : List (K × K)) :
    spent p (e :: l) = (if p e.1 then e.2 else 0) + spent p l := by
  by_cases h : p e.1 <;> simp [spent, h]

theorem spent_snoc (l : List (K × K)) (e : K × K) :
    spent p (l ++ [e]) = spent p l + if p e.1 then e.2 else 0 := by
  by_cases h : p e.1 <;> simp [spent, List.filter_append, h]

theorem spent_eq_zero {l : List (K × K)} (h : ∀ e ∈ l, ¬p e.1) : spent p l = 0 := by
  rw [spent, List.filter_eq_nil_iff.mpr (by simpa using h)]
  rfl

variable [LinearOrder K] [IsStrictOrderedRing K]

theorem spent_nonneg {l : List (K × K)} (hl : ∀ e ∈ l, 0 ≤ e.2) : 0 ≤ spent p l :=
  List.sum_nonneg (by
    simp only [List.mem_map, List.mem_filter]
    rintro _ ⟨e, ⟨he, -⟩, rfl⟩
    exact hl e he)

/-- Entries covered by `q` or `r` are paid for by both together. -/
theorem spent_le_add {l : List (K × K)} (hl : ∀ e ∈ l, 0 ≤ e.2)
    (h : ∀ e ∈ l, p e.1 → q e.1 ∨ r e.1) : spent p l ≤ spent q l + spent r l := by
  induction l with
  | nil => simp
  | cons e l ih =>
    have hrest := ih (fun e he => hl e (List.mem_cons_of_mem _ he))
      (fun e he => h e (List.mem_cons_of_mem _ he))
    have he := hl e List.mem_cons_self
    have hhead : (if p e.1 then e.2 else 0) ≤
        (if q e.1 then e.2 else 0) + if r e.1 then e.2 else 0 := by
      by_cases hp : p e.1
      · rcases h e List.mem_cons_self hp with hq | hr
        · by_cases hr : r e.1 <;> simp [hp, hq, hr, he]
        · by_cases hq : q e.1 <;> simp [hp, hq, hr, he]
      · by_cases hq : q e.1 <;> by_cases hr : r e.1 <;> simp [hp, hq, hr, he]
    simp only [spent_cons]
    linarith

theorem spent_mono {l : List (K × K)} (hl : ∀ e ∈ l, 0 ≤ e.2)
    (h : ∀ e ∈ l, p e.1 → q e.1) : spent p l ≤ spent q l := by
  have hadd := spent_le_add p q (fun _ => False) hl (fun e he hp => Or.inl (h e he hp))
  have hzero : spent (fun _ : K => False) l = 0 := spent_eq_zero _ (fun _ _ => id)
  linarith

end Sums

/-! ## Buckets and the rule -/

variable [LinearOrder K]

/-- Time `x` falls in bucket `b` of length `W`. -/
def InBucket (W : K) (b : ℤ) (x : K) : Prop := b * W ≤ x ∧ x < (b + 1) * W

/-- Time `x` falls in the half-open interval of length `W` from `t`. -/
def InWindow (W t x : K) : Prop := t ≤ x ∧ x < t + W

instance (W : K) (b : ℤ) : DecidablePred (InBucket W b) := fun _ => instDecidableAnd

instance (W t : K) : DecidablePred (InWindow W t) := fun _ => instDecidableAnd

/-- Ledgers built by the two-bucket rule. -/
inductive Admissible (W M : K) : List (K × K) → Prop where
  | nil : Admissible W M []
  | accept {l : List (K × K)} {x cost : K} {c : ℤ} :
      Admissible W M l → 0 ≤ cost → InBucket W c x →
      spent (InBucket W (c - 1)) l * (1 - (x - c * W) / W) + spent (InBucket W c) l + cost ≤ M →
      Admissible W M (l ++ [(x, cost)])

theorem Admissible.cost_nonneg {W M : K} {l : List (K × K)} (h : Admissible W M l) :
    ∀ e ∈ l, 0 ≤ e.2 := by
  induction h with
  | nil => simp
  | accept _ hcost _ _ ih =>
    exact List.forall_mem_append.mpr ⟨ih, List.forall_mem_singleton.mpr hcost⟩

variable [IsStrictOrderedRing K]

/-- A time falls in one bucket only. -/
theorem InBucket.unique {W : K} (hW : 0 < W) {b c : ℤ} {x : K} (hb : InBucket W b x)
    (hc : InBucket W c x) : b = c := by
  have lt : ∀ {i j : ℤ}, InBucket W i x → InBucket W j x → i < j + 1 := fun {i j} hi hj => by
    have : (i : K) * W < (j + 1) * W := lt_of_le_of_lt hi.1 hj.2
    exact_mod_cast lt_of_mul_lt_mul_right this hW.le
  have h₁ := lt hb hc
  have h₂ := lt hc hb
  omega

/-- The offset of a time in its bucket, as a fraction of the bucket. -/
theorem InBucket.fraction_mem {W : K} (hW : 0 < W) {b : ℤ} {x : K} (h : InBucket W b x) :
    0 ≤ (x - b * W) / W ∧ (x - b * W) / W < 1 := by
  obtain ⟨h₀, h₁⟩ := h
  exact ⟨div_nonneg (by linarith) hW.le, by rw [div_lt_one hW]; linarith⟩

section Cover

variable {W t : K} {l : List (K × K)} {b : ℤ}

/-- While all times are in the bucket of `t` or before it, that bucket covers the interval. -/
theorem spent_window_le_bucket (hl : ∀ e ∈ l, 0 ≤ e.2) (ht : InBucket W b t)
    (hlast : ∀ e ∈ l, e.1 < (b + 1) * W) : spent (InWindow W t) l ≤ spent (InBucket W b) l :=
  spent_mono _ _ hl fun e he hw => ⟨ht.1.trans hw.1, hlast e he⟩

/-- One bucket later, two buckets cover it. -/
theorem spent_window_le_buckets (hl : ∀ e ∈ l, 0 ≤ e.2) (ht : InBucket W b t)
    (hlast : ∀ e ∈ l, e.1 < ((b + 1 : ℤ) + 1) * W) :
    spent (InWindow W t) l ≤ spent (InBucket W b) l + spent (InBucket W (b + 1)) l := by
  refine spent_le_add _ _ _ hl fun e he hw => ?_
  by_cases hb : e.1 < (b + 1) * W
  · exact Or.inl ⟨ht.1.trans hw.1, hb⟩
  · refine Or.inr ⟨?_, hlast e he⟩
    push_cast
    exact not_lt.mp hb

end Cover

namespace Admissible

variable {W M : K} {l : List (K × K)}

/-- No bucket holds more than the limit, whatever the order of the times. -/
theorem bucket_le (hW : 0 < W) (hM : 0 ≤ M) (h : Admissible W M l) (b : ℤ) :
    spent (InBucket W b) l ≤ M := by
  induction h with
  | nil => simpa using hM
  | @accept l x cost c hl hcost hx hroom ih =>
    rw [spent_snoc]
    by_cases hb : InBucket W b x
    · obtain rfl := hb.unique hW hx
      obtain ⟨-, hf⟩ := hx.fraction_mem hW
      have hprev : 0 ≤ spent (InBucket W (b - 1)) l * (1 - (x - b * W) / W) :=
        mul_nonneg (spent_nonneg _ hl.cost_nonneg) (by linarith)
      rw [if_pos hb]
      linarith
    · simpa [hb] using ih

/-- What the rule leaves room for just after a bucket boundary: the bucket before it is weighted
by what an interval from `t` still covers of it. -/
theorem next_bucket_le (hW : 0 < W) (hM : 0 ≤ M) (h : Admissible W M l) {x cost t : K} {b : ℤ}
    (hx : InBucket W (b + 1) x) (hxt : x < t + W)
    (hroom : spent (InBucket W b) l * (1 - (x - (b + 1 : ℤ) * W) / W) +
      spent (InBucket W (b + 1)) l + cost ≤ M) :
    spent (InBucket W b) l + (spent (InBucket W (b + 1)) l + cost) ≤
      M * (1 + (t - b * W) / W) := by
  have hoffset : (x - ((b + 1 : ℤ) : K) * W) / W ≤ (t - b * W) / W := by
    refine div_le_div_of_nonneg_right ?_ hW.le
    push_cast
    linarith
  have hpast : spent (InBucket W b) l * ((x - ((b + 1 : ℤ) : K) * W) / W) ≤
      M * ((t - b * W) / W) :=
    mul_le_mul (h.bucket_le hW hM b) hoffset (hx.fraction_mem hW).1 hM
  linarith

/-- With times that do not decrease, an interval of length `W` holds at most the limit and the
share of it that the interval's offset in its bucket allows. -/
theorem window_le (hW : 0 < W) (hM : 0 ≤ M) (h : Admissible W M l)
    (hsorted : l.Pairwise (fun e f => e.1 ≤ f.1)) {t : K} {b : ℤ} (ht : InBucket W b t) :
    spent (InWindow W t) l ≤ M * (1 + (t - b * W) / W) := by
  have hlimit : M ≤ M * (1 + (t - b * W) / W) := by
    nlinarith [mul_nonneg hM (ht.fraction_mem hW).1]
  induction h with
  | nil => simpa using hM.trans hlimit
  | @accept l x cost c hl hcost hx hroom ih =>
    obtain ⟨hsorted', -, hbefore⟩ := List.pairwise_append.mp hsorted
    by_cases hin : InWindow W t x
    · have hadm : Admissible W M (l ++ [(x, cost)]) := .accept hl hcost hx hroom
      have hle : ∀ e ∈ l ++ [(x, cost)], e.1 ≤ x := le_last_of_sorted hsorted
      by_cases hsame : x < (b + 1) * W
      · -- The last entry is still in the bucket of `t`, and so is everything in the interval.
        have hcover := spent_window_le_bucket hadm.cost_nonneg ht
          fun e he => (hle e he).trans_lt hsame
        exact hcover.trans ((hadm.bucket_le hW hM b).trans hlimit)
      · -- The last entry is in the next bucket, before the offset of `t`.
        have hnext : InBucket W (b + 1) x := by
          have h₁ := hin.2
          have h₂ := ht.2
          refine ⟨by push_cast; exact not_lt.mp hsame, ?_⟩
          push_cast
          linarith
        obtain rfl := hx.unique hW hnext
        have hold : ¬InBucket W b x := fun hb => by
          have := hb.unique hW hnext
          omega
        have hcover := spent_window_le_buckets hadm.cost_nonneg ht
          fun e he => (hle e he).trans_lt hnext.2
        rw [spent_snoc (InBucket W b), if_neg hold, add_zero, spent_snoc (InBucket W (b + 1)),
          if_pos hnext] at hcover
        rw [add_sub_cancel_right] at hroom
        exact hcover.trans (hl.next_bucket_le hW hM hnext hin.2 hroom)
    · rw [spent_snoc, if_neg hin, add_zero]
      exact ih hsorted'

end Admissible

/-! ## The blended count -/

/-- What the rule counts at time `x` of bucket `c`, before a cost is added. -/
def blend (W : K) (c : ℤ) (x : K) (l : List (K × K)) : K :=
  spent (InBucket W (c - 1)) l * (1 - (x - c * W) / W) + spent (InBucket W c) l

section Blend

variable {W : K} {l : List (K × K)} {x y : K} {c d : ℤ}

theorem blend_nonneg (hW : 0 < W) (hl : ∀ e ∈ l, 0 ≤ e.2) (hx : InBucket W c x) :
    0 ≤ blend W c x l := by
  obtain ⟨-, hf⟩ := hx.fraction_mem hW
  have hprev : 0 ≤ spent (InBucket W (c - 1)) l * (1 - (x - c * W) / W) :=
    mul_nonneg (spent_nonneg _ hl) (by linarith)
  have hcur := spent_nonneg (InBucket W c) hl
  unfold blend
  linarith

/-- Nothing is spent in a bucket that starts after the last entry. -/
theorem spent_later (hW : 0 < W) (hx : InBucket W c x) (hlast : ∀ e ∈ l, e.1 ≤ x) (h : c < d) :
    spent (InBucket W d) l = 0 := by
  apply spent_eq_zero
  intro e he hin
  have hcd : (c : K) + 1 ≤ d := by exact_mod_cast h
  have hstart : ((c : K) + 1) * W ≤ d * W := mul_le_mul_of_nonneg_right hcd hW.le
  linarith [hin.1, hlast e he, hx.2]

/-- Later times are in the same bucket or a later one. -/
theorem InBucket.le (hW : 0 < W) (hx : InBucket W c x) (hy : InBucket W d y) (hxy : x ≤ y) :
    c ≤ d := by
  have h : (c : K) * W < (d + 1) * W := lt_of_le_of_lt (hx.1.trans hxy) hy.2
  have hlt : (c : K) < d + 1 := lt_of_mul_lt_mul_right h hW.le
  have : c < d + 1 := by exact_mod_cast hlt
  omega

/-- With nothing new spent the count does not grow as time passes. -/
theorem blend_anti (hW : 0 < W) (hl : ∀ e ∈ l, 0 ≤ e.2) (hx : InBucket W c x)
    (hy : InBucket W d y) (hlast : ∀ e ∈ l, e.1 ≤ x) (hxy : x ≤ y) :
    blend W d y l ≤ blend W c x l := by
  have hcd := hx.le hW hy hxy
  have hfrac := hy.fraction_mem hW
  have hprev := spent_nonneg (InBucket W (c - 1)) hl
  rcases lt_trichotomy d (c + 1) with hd | hd | hd
  · -- The previous bucket has faded a little more.
    obtain rfl : d = c := by omega
    have hage : (x - d * W) / W ≤ (y - d * W) / W :=
      div_le_div_of_nonneg_right (by linarith) hW.le
    have hfade := mul_le_mul_of_nonneg_left hage hprev
    unfold blend
    linarith
  · -- The current bucket has become the previous one.
    subst hd
    have hnew := spent_later hW hx hlast (d := c + 1) (by omega)
    have hcur := spent_nonneg (InBucket W c) hl
    have hfade := mul_nonneg hcur hfrac.1
    have hpast : 0 ≤ spent (InBucket W (c - 1)) l * (1 - (x - c * W) / W) :=
      mul_nonneg hprev (by linarith [(hx.fraction_mem hW).2])
    simp only [blend, hnew, add_sub_cancel_right]
    linarith
  · -- Everything has faded.
    have hprev' := spent_later hW hx hlast (d := d - 1) (by omega)
    have hnew := spent_later hW hx hlast (d := d) (by omega)
    have hpast := blend_nonneg hW hl hx
    simpa [blend, hprev', hnew] using hpast

/-- The rule keeps the count within the limit, at the last entry and ever after. -/
theorem Admissible.blend_le {M : K} (hW : 0 < W) (hM : 0 ≤ M) (h : Admissible W M l)
    (hsorted : l.Pairwise (fun e f => e.1 ≤ f.1)) (hx : InBucket W c x)
    (hlast : ∀ e ∈ l, e.1 ≤ x) : blend W c x l ≤ M := by
  cases h with
  | nil => simpa [blend] using hM
  | @accept l x₀ cost c₀ hl hcost hx₀ hroom =>
    have hadm : Admissible W M (l ++ [(x₀, cost)]) := .accept hl hcost hx₀ hroom
    have hle : ∀ e ∈ l ++ [(x₀, cost)], e.1 ≤ x₀ := le_last_of_sorted hsorted
    have hprev : ¬InBucket W (c₀ - 1) x₀ := fun hin => by
      have := hin.unique hW hx₀
      omega
    have hat : blend W c₀ x₀ (l ++ [(x₀, cost)]) ≤ M := by
      rw [blend, spent_snoc, spent_snoc, if_neg hprev, if_pos hx₀]
      linarith
    exact (blend_anti hW hadm.cost_nonneg hx₀ hx hle (hlast (x₀, cost) (by simp))).trans hat

end Blend

end StigmergicMesh.Ledger
