import Mathlib.Analysis.SpecialFunctions.Log.Basic
import Mathlib.Algebra.BigOperators.Ring.List

/-!
# Softmax of a list of reals

The Boltzmann weights of a nonempty list are positive and sum to one, and they do not change when
a constant is subtracted from every entry, which is how implementations avoid overflow; nothing
else leaves them the same. To raise an entry raises its weight and lowers every other; to lower
the others relative to an entry raises its weight.
-/

namespace StigmergicMesh.Softmax

/-- `∑ⱼ exp xⱼ`. -/
noncomputable def partition (xs : List ℝ) : ℝ := (xs.map Real.exp).sum

/-- `exp xᵢ / ∑ⱼ exp xⱼ` for every entry. -/
noncomputable def softmax (xs : List ℝ) : List ℝ := xs.map (fun x => Real.exp x / partition xs)

theorem partition_pos {xs : List ℝ} (h : xs ≠ []) : 0 < partition xs := by
  refine List.sum_pos _ (fun y hy => ?_) (by simpa using h)
  obtain ⟨x, -, rfl⟩ := List.mem_map.mp hy
  exact Real.exp_pos x

theorem pos_of_mem_softmax {xs : List ℝ} {p : ℝ} (hp : p ∈ softmax xs) : 0 < p := by
  obtain ⟨x, hx, rfl⟩ := List.mem_map.mp hp
  exact div_pos (Real.exp_pos x) (partition_pos (List.ne_nil_of_mem hx))

theorem sum_softmax {xs : List ℝ} (h : xs ≠ []) : (softmax xs).sum = 1 := by
  simp only [softmax, div_eq_mul_inv]
  rw [List.sum_map_mul_right]
  exact mul_inv_cancel₀ (partition_pos h).ne'

theorem partition_sub (xs : List ℝ) (c : ℝ) :
    partition (xs.map (· - c)) = partition xs * (Real.exp c)⁻¹ := by
  rw [partition, partition, ← List.sum_map_mul_right, List.map_map]
  congr 1
  exact List.map_congr_left fun x _ => by
    rw [Function.comp_apply, Real.exp_sub, div_eq_mul_inv]

/-- Subtracting a constant cancels. -/
theorem softmax_sub (xs : List ℝ) (c : ℝ) : softmax (xs.map (· - c)) = softmax xs := by
  rw [softmax, softmax, partition_sub, List.map_map]
  refine List.map_congr_left fun x _ => ?_
  rw [Function.comp_apply, Real.exp_sub, div_eq_mul_inv _ (Real.exp c),
    mul_div_mul_right _ _ (inv_ne_zero (Real.exp_pos c).ne')]

theorem getElem?_softmax {xs : List ℝ} {i : ℕ} {x : ℝ} (hx : xs[i]? = some x) :
    (softmax xs)[i]? = some (Real.exp x / partition xs) := by
  simp [softmax, hx]

/-! ## Comparing two lists -/

/-- Two lists have the same weights exactly if they differ by a constant. -/
theorem softmax_eq_iff {xs ys : List ℝ} (hlen : xs.length = ys.length) :
    softmax xs = softmax ys ↔
      ∃ c, ∀ (i : ℕ) (x y : ℝ), xs[i]? = some x → ys[i]? = some y → x - y = c := by
  constructor
  · intro h
    refine ⟨Real.log (partition xs) - Real.log (partition ys), fun i x y hx hy => ?_⟩
    have hxs := partition_pos (List.ne_nil_of_mem (List.mem_of_getElem? hx))
    have hys := partition_pos (List.ne_nil_of_mem (List.mem_of_getElem? hy))
    have hentry : Real.exp x / partition xs = Real.exp y / partition ys := by
      have hget := getElem?_softmax hx
      rw [h, getElem?_softmax hy] at hget
      exact (Option.some.inj hget).symm
    have hlog := congrArg Real.log hentry
    rw [Real.log_div (Real.exp_pos x).ne' hxs.ne', Real.log_div (Real.exp_pos y).ne' hys.ne',
      Real.log_exp, Real.log_exp] at hlog
    linarith
  · rintro ⟨c, hc⟩
    have hys : ys = xs.map (· - c) := by
      apply List.ext_getElem (by simpa using hlen.symm)
      intro i hi hi'
      have hix : i < xs.length := by omega
      have := hc i xs[i] ys[i] (List.getElem?_eq_getElem hix) (List.getElem?_eq_getElem hi)
      rw [List.getElem_map]
      linarith
    rw [hys, softmax_sub]

/-- A larger entry has a larger weight. -/
theorem softmax_mono {xs : List ℝ} {i j : ℕ} {x y p q : ℝ} (hx : xs[i]? = some x)
    (hy : xs[j]? = some y) (hp : (softmax xs)[i]? = some p) (hq : (softmax xs)[j]? = some q)
    (hxy : x ≤ y) : p ≤ q := by
  have hpos := partition_pos (List.ne_nil_of_mem (List.mem_of_getElem? hx))
  rw [getElem?_softmax hx, Option.some.injEq] at hp
  rw [getElem?_softmax hy, Option.some.injEq] at hq
  rw [← hp, ← hq]
  exact div_le_div_of_nonneg_right (Real.exp_le_exp.mpr hxy) hpos.le

/-- Two weights of one list are in the ratio of the exponentials. -/
theorem softmax_ratio {xs : List ℝ} {i j : ℕ} {x y p q : ℝ} (hx : xs[i]? = some x)
    (hy : xs[j]? = some y) (hp : (softmax xs)[i]? = some p) (hq : (softmax xs)[j]? = some q) :
    p / q = Real.exp (x - y) := by
  have hpos := partition_pos (List.ne_nil_of_mem (List.mem_of_getElem? hx))
  rw [getElem?_softmax hx, Option.some.injEq] at hp
  rw [getElem?_softmax hy, Option.some.injEq] at hq
  rw [← hp, ← hq, div_div_div_cancel_right₀ hpos.ne', Real.exp_sub]

/-! ## The gaps to one entry

Only the gaps between entries matter: the higher the others stand above an entry, the smaller its
weight. The two families are over one list of indices. -/

section Gaps

variable {α : Type*} {l : List α} {f g : α → ℝ} {a : α}

theorem exp_mul_partition_map (x : ℝ) (l : List α) (f : α → ℝ) :
    Real.exp x * partition (l.map f) = (l.map fun b => Real.exp (x + f b)).sum := by
  rw [partition, List.map_map, ← List.sum_map_mul_left]
  simp only [Function.comp_apply, Real.exp_add]

theorem weight_le_of_gaps_le (ha : a ∈ l) (h : ∀ b ∈ l, f b - f a ≤ g b - g a) :
    Real.exp (g a) / partition (l.map g) ≤ Real.exp (f a) / partition (l.map f) := by
  have hf := partition_pos (List.ne_nil_of_mem (List.mem_map_of_mem (f := f) ha))
  have hg := partition_pos (List.ne_nil_of_mem (List.mem_map_of_mem (f := g) ha))
  rw [div_le_div_iff₀ hg hf, exp_mul_partition_map, exp_mul_partition_map]
  refine List.sum_le_sum fun b hb => ?_
  have hgap := h b hb
  exact Real.exp_le_exp.mpr (by linarith)

theorem weight_lt_of_gaps_le (ha : a ∈ l) (h : ∀ b ∈ l, f b - f a ≤ g b - g a)
    (hlt : ∃ b ∈ l, f b - f a < g b - g a) :
    Real.exp (g a) / partition (l.map g) < Real.exp (f a) / partition (l.map f) := by
  have hf := partition_pos (List.ne_nil_of_mem (List.mem_map_of_mem (f := f) ha))
  have hg := partition_pos (List.ne_nil_of_mem (List.mem_map_of_mem (f := g) ha))
  rw [div_lt_div_iff₀ hg hf, exp_mul_partition_map, exp_mul_partition_map]
  obtain ⟨c, hc, hgap⟩ := hlt
  refine List.sum_lt_sum _ _ (fun b hb => ?_) ⟨c, hc, Real.exp_lt_exp.mpr (by linarith)⟩
  have hgap := h b hb
  exact Real.exp_le_exp.mpr (by linarith)

end Gaps

/-! ## Raising one entry -/

/-- The entry at `i` apart from the others. -/
theorem partition_eraseIdx {xs : List ℝ} {i : ℕ} {x : ℝ} (hx : xs[i]? = some x) :
    partition xs = Real.exp x + partition (xs.eraseIdx i) := by
  induction xs generalizing i with
  | nil => simp at hx
  | cons a xs ih =>
    cases i with
    | zero =>
      obtain rfl : a = x := by simpa using hx
      simp [partition]
    | succ i =>
      have hrest := ih (by simpa using hx)
      simp only [partition, List.map_cons, List.sum_cons, List.eraseIdx_cons_succ] at hrest ⊢
      rw [hrest]
      ring

section Raise

variable {xs : List ℝ} {i : ℕ} {x y : ℝ} (hx : xs[i]? = some x) (hlen : 2 ≤ xs.length)
  (hxy : x < y)

include hx in
theorem partition_set (y : ℝ) :
    partition (xs.set i y) = Real.exp y + partition (xs.eraseIdx i) := by
  have hi : i < xs.length := (List.getElem?_eq_some_iff.mp hx).1
  have hy : (xs.set i y)[i]? = some y := by simp [hi]
  rw [partition_eraseIdx hy, List.eraseIdx_set_eq]

include hx hxy

include hlen in
/-- The raised entry gains. -/
theorem softmax_set_self : ∃ p q, (softmax xs)[i]? = some p ∧
    (softmax (xs.set i y))[i]? = some q ∧ p < q := by
  have hi : i < xs.length := (List.getElem?_eq_some_iff.mp hx).1
  have hy : (xs.set i y)[i]? = some y := by simp [hi]
  refine ⟨_, _, getElem?_softmax hx, getElem?_softmax hy, ?_⟩
  have hrest : 0 < partition (xs.eraseIdx i) := by
    apply partition_pos
    have hshorter := List.length_eraseIdx_of_lt hi
    intro hnil
    rw [hnil, List.length_nil] at hshorter
    omega
  have hexp := Real.exp_lt_exp.mpr hxy
  have hx₀ := Real.exp_pos x
  have hy₀ := Real.exp_pos y
  rw [partition_set hx, partition_eraseIdx hx,
    div_lt_div_iff₀ (add_pos hx₀ hrest) (add_pos hy₀ hrest)]
  nlinarith

/-- Every other entry loses. -/
theorem softmax_set_ne {j : ℕ} (hj : j ≠ i) (hjlen : j < xs.length) :
    ∃ p q, (softmax xs)[j]? = some p ∧ (softmax (xs.set i y))[j]? = some q ∧ q < p := by
  have hz : xs[j]? = some xs[j] := List.getElem?_eq_getElem hjlen
  have hz' : (xs.set i y)[j]? = some xs[j] := by rw [List.getElem?_set_ne hj.symm, hz]
  refine ⟨_, _, getElem?_softmax hz, getElem?_softmax hz', ?_⟩
  have hpos := partition_pos (List.ne_nil_of_mem (List.mem_of_getElem? hx))
  have hexp := Real.exp_lt_exp.mpr hxy
  have hgrows : partition xs < partition (xs.set i y) := by
    rw [partition_set hx, partition_eraseIdx hx]
    linarith
  exact div_lt_div_of_pos_left (Real.exp_pos _) hpos hgrows

end Raise

end StigmergicMesh.Softmax
