import Mathlib.Algebra.Order.Ring.Abs
import Mathlib.Data.List.Permutation
import Mathlib.Tactic.Linarith

/-!
# Sums of consecutive differences

The differences of neighbours add up to the last entry minus the first, so what lies between is
lost. The size of that sum does not depend on the order of the entries exactly if there are at most
two of them, or they are all the same.
-/

namespace StigmergicMesh.Differences

/-- Every entry but the first minus the one before it. -/
def diff {K : Type*} [Sub K] : List K → List K
  | x :: y :: xs => (y - x) :: diff (y :: xs)
  | _ => []

section Telescope

variable {K : Type*} [AddCommGroup K]

/-- The sum telescopes. -/
theorem sum_diff_cons (x : K) (xs : List K) : (diff (x :: xs)).sum = xs.getLastD x - x := by
  induction xs generalizing x with
  | nil => simp [diff]
  | cons y xs ih =>
    rw [diff, List.sum_cons, ih y, List.getLastD_cons, sub_add_sub_cancel']

theorem sum_diff_ends (x y : K) (xs : List K) : (diff (x :: (xs ++ [y]))).sum = y - x := by
  rw [sum_diff_cons, List.getLastD_concat]

/-- A list that is constant has no differences. -/
theorem sum_diff_eq_zero {xs : List K} (h : ∀ x ∈ xs, ∀ y ∈ xs, x = y) : (diff xs).sum = 0 := by
  cases xs with
  | nil => rfl
  | cons x xs =>
    rw [sum_diff_cons, sub_eq_zero]
    exact h _ (List.getLastD_mem_cons ..) x List.mem_cons_self

end Telescope

/-! ## Dependence on the order -/

variable {α K : Type*} [Field K] [LinearOrder K]

/-- The size of the summed differences of some entries' values. -/
def drift (f : α → K) (as : List α) : K := |(diff (as.map f)).sum|

def OrderFree (f : α → K) (as : List α) : Prop := ∀ bs, bs.Perm as → drift f bs = drift f as

theorem drift_pair (f : α → K) (a b : α) : drift f [a, b] = |f b - f a| := by
  simp [drift, diff]

omit [Field K] [LinearOrder K] in
/-- Any entry after the first can be moved to the end. -/
theorem perm_ends (a : α) {b : α} {as : List α} (hb : b ∈ as) :
    ∃ cs, (a :: (cs ++ [b])).Perm (a :: as) := by
  obtain ⟨xs, ys, rfl⟩ := List.append_of_mem hb
  refine ⟨xs ++ ys, List.Perm.cons a ?_⟩
  rw [List.append_assoc]
  exact List.Perm.append_left xs (List.perm_append_singleton b ys)

theorem OrderFree.perm {f : α → K} {as bs : List α} (h : OrderFree f as) (hp : bs.Perm as) :
    OrderFree f bs :=
  fun cs hc => (h cs (hc.trans hp)).trans (h bs hp).symm

/-- Then all entries are at the same distance from the first. -/
theorem OrderFree.abs_sub {f : α → K} {a b : α} {as : List α} (h : OrderFree f (a :: as))
    (hb : b ∈ as) : |f b - f a| = drift f (a :: as) := by
  obtain ⟨cs, hcs⟩ := perm_ends a hb
  rw [← h _ hcs, drift, List.map_cons, List.map_append, List.map_singleton, sum_diff_ends]

variable [IsStrictOrderedRing K]

theorem drift_eq_zero {f : α → K} {as : List α} (h : ∀ a ∈ as, ∀ b ∈ as, f a = f b) :
    drift f as = 0 := by
  rw [drift, sum_diff_eq_zero, abs_zero]
  intro x hx y hy
  obtain ⟨a, ha, rfl⟩ := List.mem_map.mp hx
  obtain ⟨b, hb, rfl⟩ := List.mem_map.mp hy
  exact h a ha b hb

/-- Two entries without drift agree. -/
theorem eq_of_drift_eq_zero {f : α → K} {as : List α} (hlen : as.length ≤ 2)
    (h : drift f as = 0) : ∀ a ∈ as, ∀ b ∈ as, f a = f b := by
  match as, hlen with
  | [], _ => simp
  | [a], _ => simp
  | [a, b], _ =>
    rw [drift_pair, abs_eq_zero, sub_eq_zero] at h
    simp [h]

/-- Three numbers at one distance from each other are equal. -/
theorem eq_zero_of_equidistant {x y z d : K} (hxy : |y - x| = d) (hxz : |z - x| = d)
    (hyz : |z - y| = d) : d = 0 := by
  rcases abs_cases (y - x) with ⟨h₁, _⟩ | ⟨h₁, _⟩ <;>
    rcases abs_cases (z - x) with ⟨h₂, _⟩ | ⟨h₂, _⟩ <;>
      rcases abs_cases (z - y) with ⟨h₃, _⟩ | ⟨h₃, _⟩ <;> linarith

/-- The distances from the first entry and those from the second are the same number, so it is
zero once there is a third entry. -/
theorem OrderFree.eq_of_three {f : α → K} {a b c : α} {rest : List α}
    (h : OrderFree f (a :: b :: c :: rest)) : ∀ x ∈ a :: b :: c :: rest, f x = f a := by
  have hswap := List.Perm.swap a b (c :: rest)
  have hab := h.abs_sub (b := b) (by simp)
  have hac := h.abs_sub (b := c) (by simp)
  have hbc := ((h.perm hswap).abs_sub (b := c) (by simp)).trans (h _ hswap)
  have hzero := eq_zero_of_equidistant hab hac hbc
  intro x hx
  rcases List.mem_cons.mp hx with rfl | hx
  · rfl
  · exact sub_eq_zero.mp (abs_eq_zero.mp ((h.abs_sub hx).trans hzero))

/-- The order does not matter exactly for at most two entries and for entries of one value. -/
theorem orderFree_iff (f : α → K) (as : List α) :
    OrderFree f as ↔ as.length ≤ 2 ∨ ∀ a ∈ as, ∀ b ∈ as, f a = f b := by
  constructor
  · intro h
    match as, h with
    | [], _ => exact Or.inl (by simp)
    | [_], _ => exact Or.inl (by simp)
    | [_, _], _ => exact Or.inl (by simp)
    | a :: b :: c :: rest, h =>
      exact Or.inr fun x hx y hy => (h.eq_of_three x hx).trans (h.eq_of_three y hy).symm
  · rintro (hlen | hall) bs hbs
    · match as, hlen with
      | [], _ => rw [hbs.eq_nil]
      | [a], _ => rw [List.perm_singleton.mp hbs]
      | [a, b], _ =>
        rcases List.perm_pair.mp hbs with rfl | rfl
        · rfl
        · rw [drift_pair, drift_pair, abs_sub_comm]
    · rw [drift_eq_zero hall,
        drift_eq_zero fun a ha b hb => hall a (hbs.mem_iff.mp ha) b (hbs.mem_iff.mp hb)]

end StigmergicMesh.Differences
