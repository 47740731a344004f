import StigmergicMesh.RateLimit.Expiry
import Mathlib.Data.Set.Card
import Mathlib.Data.Int.Interval

/-!
# What expiry prunes

Only expiry ever removes a field, and it removes them all: an execution that finds the key expired
starts from an empty hash. It runs on the server's clock, while `now` is the client's and cut to
seconds, so every execution has both. While admissions keep coming, every bucket that was ever
written stays in the hash.
-/

namespace StigmergicMesh.RateLimit

/-- One execution, at a time of the server's clock. -/
structure Visit extends Execution where
  clock : ℚ

/-- A key, and the executions on it with their verdicts. -/
structure Visited where
  quota : Quota
  history : List (Visit × Bool)

def Visited.visit (window : ℚ) (s : Visited) (x : Visit) : Visited :=
  let (reply, quota) :=
    slidingWindow x.clock x.now window x.maxLimit x.cost (s.quota.live x.clock)
  ⟨quota, s.history ++ [(x, reply.allowed)]⟩

/-- Execute on a key that is empty at first. -/
def visitAll (window : ℚ) (xs : List Visit) : Visited :=
  xs.foldl (Visited.visit window) ⟨Quota.empty, []⟩

theorem visitAll_snoc (window : ℚ) (xs : List Visit) (x : Visit) :
    visitAll window (xs ++ [x]) = (visitAll window xs).visit window x := by
  simp [visitAll, List.foldl_append]

theorem history_visitAll (window : ℚ) (xs : List Visit) :
    (visitAll window xs).history.map Prod.fst = xs := by
  induction xs using List.reverseRecOn with
  | nil => rfl
  | append_singleton xs x ih => simp [visitAll_snoc, Visited.visit, ih]

/-- An execution that has room writes the current field of what is left of the key. -/
theorem Visited.visit_cases (window : ℚ) (s : Visited) (x : Visit) :
    ((s.visit window x).quota = (s.quota.live x.clock).record x.clock x.now window x.cost ∧
        (s.visit window x).history = s.history ++ [(x, true)]) ∨
      ((s.visit window x).quota = s.quota.live x.clock ∧
        (s.visit window x).history = s.history ++ [(x, false)]) := by
  by_cases h : (s.quota.live x.clock).Fits x.now window x.maxLimit x.cost
  · obtain ⟨hok, hq⟩ := slidingWindow_of_fits x.clock h
    exact Or.inl ⟨hq, by simp [visit, hok]⟩
  · obtain ⟨hno, hq⟩ := slidingWindow_of_not_fits x.clock h
    exact Or.inr ⟨hq, by simp [visit, hno]⟩

/-! ## What is pruned -/

/-- The hash holds no fields but those of the current bucket and the one before it. -/
def Quota.OnlyRecent (q : Quota) (window now : ℚ) : Prop :=
  ∀ b : ℤ, (q.fields b).isSome → b = currentBucket now window ∨ b = currentBucket now window - 1

/-- Expired buckets are gone, so that two fields are left at most. -/
def Quota.Pruned (q : Quota) (window now : ℚ) : Prop :=
  q.OnlyRecent window now ∧ {b | (q.fields b).isSome}.encard ≤ (2 : ℕ)

theorem Quota.pruned_iff (q : Quota) (window now : ℚ) :
    q.Pruned window now ↔ q.OnlyRecent window now := by
  refine and_iff_left_of_imp fun h => ?_
  have hsub : {b | (q.fields b).isSome} ⊆
      {currentBucket now window, currentBucket now window - 1} := fun b hb => h b hb
  exact (Set.encard_le_encard hsub).trans (Set.encard_pair (by omega)).le

/-- After a history the key is found expired: its last admission lies two windows back by the
server's clock. -/
def Lapsed (window : ℚ) (history : List (Visit × Bool)) (clock : ℚ) : Prop :=
  ∃ e, (history.filter Prod.snd).getLast? = some e ∧ e.1.clock + window * 2 ≤ clock

/-- A later execution of the history found the key expired. -/
def ForgottenIn (window : ℚ) (history : List (Visit × Bool)) (i : ℕ) : Prop :=
  ∃ (k : ℕ) (u : Visit × Bool), i < k ∧ history[k]? = some u ∧
    Lapsed window (history.take k) u.1.clock

/-- Every admission that lies two buckets back was forgotten: an execution after it, this one or an
earlier one, finds the key expired. -/
def AllForgotten (window : ℚ) (history : List (Visit × Bool)) (x : Visit) : Prop :=
  ∀ (i : ℕ) e, history[i]? = some (e, true) →
    currentBucket e.now window < currentBucket x.now window - 1 →
      ForgottenIn window history i ∨ Lapsed window history x.clock

theorem lapsed_snoc {window : ℚ} {history : List (Visit × Bool)} {x : Visit} {clock : ℚ} :
    (Lapsed window (history ++ [(x, true)]) clock ↔ x.clock + window * 2 ≤ clock) ∧
      (Lapsed window (history ++ [(x, false)]) clock ↔ Lapsed window history clock) := by
  constructor <;> simp [Lapsed, List.filter_append]

/-- One execution more is one chance more to find the key expired. -/
theorem forgottenIn_snoc {window : ℚ} {history : List (Visit × Bool)} {v : Visit × Bool} {i : ℕ}
    (hi : i < history.length) :
    ForgottenIn window (history ++ [v]) i ↔
      ForgottenIn window history i ∨ Lapsed window history v.1.clock := by
  constructor
  · rintro ⟨k, u, hik, hk, hlapsed⟩
    rcases lt_or_ge k history.length with hlt | hge
    · rw [List.getElem?_append_left hlt] at hk
      rw [List.take_append_of_le_length hlt.le] at hlapsed
      exact Or.inl ⟨k, u, hik, hk, hlapsed⟩
    · have hlen : k < (history ++ [v]).length := (List.getElem?_eq_some_iff.mp hk).1
      obtain rfl : k = history.length := by
        rw [List.length_append, List.length_singleton] at hlen
        omega
      rw [List.getElem?_concat_length] at hk
      obtain rfl := Option.some.inj hk
      rw [List.take_left] at hlapsed
      exact Or.inr hlapsed
  · rintro (⟨k, u, hik, hk, hlapsed⟩ | hlapsed)
    · have hlt : k < history.length := (List.getElem?_eq_some_iff.mp hk).1
      refine ⟨k, u, hik, by rw [List.getElem?_append_left hlt, hk], ?_⟩
      rw [List.take_append_of_le_length hlt.le]
      exact hlapsed
    · refine ⟨history.length, v, hi, List.getElem?_concat_length, ?_⟩
      rw [List.take_left]
      exact hlapsed

theorem not_forgottenIn_last {window : ℚ} {history : List (Visit × Bool)} {v : Visit × Bool} :
    ¬ForgottenIn window (history ++ [v]) history.length := by
  rintro ⟨k, u, hik, hk, -⟩
  have hlen := (List.getElem?_eq_some_iff.mp hk).1
  rw [List.length_append, List.length_singleton] at hlen
  omega

/-- What holds between a key and the executions on it: a field is there as long as an admission
into its bucket is not forgotten, and the deadline is that of the last admission. -/
structure Keeps (window : ℚ) (s : Visited) : Prop where
  fields : ∀ b, (s.quota.fields b).isSome ↔ ∃ (i : ℕ) (e : Visit), s.history[i]? = some (e, true) ∧
    currentBucket e.now window = b ∧ ¬ForgottenIn window s.history i
  deadline : ∀ b, (s.quota.fields b).isSome → ∀ clock,
    (∃ d, s.quota.expireAt = some d ∧ d ≤ clock) ↔ Lapsed window s.history clock

/-- The fields that an execution at `clock` finds. -/
theorem Keeps.fields_live {window : ℚ} {s : Visited} (h : Keeps window s) (clock : ℚ) (b : ℤ) :
    ((s.quota.live clock).fields b).isSome ↔ ∃ (i : ℕ) (e : Visit),
      s.history[i]? = some (e, true) ∧ currentBucket e.now window = b ∧
        ¬(ForgottenIn window s.history i ∨ Lapsed window s.history clock) := by
  have hlive : ((s.quota.live clock).fields b).isSome ↔
      (s.quota.fields b).isSome ∧ ¬∃ d, s.quota.expireAt = some d ∧ d ≤ clock := by
    cases hd : s.quota.expireAt with
    | none => simp [Quota.live, hd]
    | some d => by_cases hgone : d ≤ clock <;> simp [Quota.live, hd, hgone, Quota.empty]
  rw [hlive]
  constructor
  · rintro ⟨hfield, hfresh⟩
    rw [h.deadline b hfield] at hfresh
    obtain ⟨i, e, he, hb, hkept⟩ := (h.fields b).mp hfield
    exact ⟨i, e, he, hb, not_or.mpr ⟨hkept, hfresh⟩⟩
  · rintro ⟨i, e, he, hb, hkept⟩
    obtain ⟨hkept, hfresh⟩ := not_or.mp hkept
    have hfield := (h.fields b).mpr ⟨i, e, he, hb, hkept⟩
    exact ⟨hfield, by rwa [h.deadline b hfield]⟩

/-- The fields after an admission. -/
theorem isSome_record (q : Quota) (clock now window cost : ℚ) (b : ℤ) :
    ((q.record clock now window cost).fields b).isSome ↔
      (q.fields b).isSome ∨ b = currentBucket now window := by
  by_cases hb : b = currentBucket now window
  · simp [Quota.record, hb]
  · simp [Quota.record, hb]

/-- An older admission is in the longer history what it was, unless the key was found expired. -/
theorem exists_kept_snoc {window : ℚ} {history : List (Visit × Bool)} {v : Visit × Bool}
    {b : ℤ} :
    (∃ (i : ℕ) (e : Visit), (history ++ [v])[i]? = some (e, true) ∧
        currentBucket e.now window = b ∧ ¬ForgottenIn window (history ++ [v]) i) ↔
      (∃ (i : ℕ) (e : Visit), history[i]? = some (e, true) ∧ currentBucket e.now window = b ∧
        ¬(ForgottenIn window history i ∨ Lapsed window history v.1.clock)) ∨
      (v.2 = true ∧ currentBucket v.1.now window = b) := by
  constructor
  · rintro ⟨i, e, he, hb, hkept⟩
    rcases lt_or_ge i history.length with hlt | hge
    · rw [List.getElem?_append_left hlt] at he
      rw [forgottenIn_snoc hlt] at hkept
      exact Or.inl ⟨i, e, he, hb, hkept⟩
    · have hlen := (List.getElem?_eq_some_iff.mp he).1
      obtain rfl : i = history.length := by
        rw [List.length_append, List.length_singleton] at hlen
        omega
      rw [List.getElem?_concat_length] at he
      obtain rfl := Option.some.inj he
      exact Or.inr ⟨rfl, hb⟩
  · rintro (⟨i, e, he, hb, hkept⟩ | ⟨hv, hb⟩)
    · have hlt : i < history.length := (List.getElem?_eq_some_iff.mp he).1
      exact ⟨i, e, by rw [List.getElem?_append_left hlt, he], hb, by rwa [forgottenIn_snoc hlt]⟩
    · refine ⟨history.length, v.1, ?_, hb, not_forgottenIn_last⟩
      rw [List.getElem?_concat_length, ← hv]

/-- One execution keeps track of the fields. -/
theorem Keeps.visit {window : ℚ} {s : Visited} (h : Keeps window s) (x : Visit) :
    Keeps window (s.visit window x) := by
  rcases s.visit_cases window x with ⟨hq, hhistory⟩ | ⟨hq, hhistory⟩
  · refine ⟨fun b => ?_, fun b _ clock => ?_⟩
    · rw [hq, hhistory, isSome_record, h.fields_live, exists_kept_snoc]
      simp only [true_and, eq_comm]
    · rw [hq, hhistory, lapsed_snoc.1]
      simp [Quota.record]
  · refine ⟨fun b => ?_, fun b hb clock => ?_⟩
    · rw [hq, hhistory, h.fields_live, exists_kept_snoc]
      simp only [Bool.false_eq_true, false_and, or_false]
    · rw [hq] at hb ⊢
      -- A key that still has a field is the one there was before.
      have hsame : s.quota.live x.clock = s.quota := by
        cases hd : s.quota.expireAt with
        | none => simp [Quota.live, hd]
        | some d =>
          by_cases hgone : d ≤ x.clock
          · simp [Quota.live, hd, hgone, Quota.empty] at hb
          · simp [Quota.live, hd, hgone]
      rw [hsame] at hb ⊢
      rw [hhistory, lapsed_snoc.2]
      exact h.deadline b hb clock

theorem keeps_visitAll (window : ℚ) (xs : List Visit) : Keeps window (visitAll window xs) := by
  induction xs using List.reverseRecOn with
  | nil => exact ⟨by simp [visitAll, Quota.empty], by simp [visitAll, Quota.empty]⟩
  | append_singleton xs x ih =>
    rw [visitAll_snoc]
    exact ih.visit x

/-- One execution leaves only recent fields exactly if older admissions are forgotten. -/
theorem Keeps.onlyRecent_iff {window : ℚ} (hw : 0 < window) {s : Visited} (h : Keeps window s)
    {x : Visit} (hpast : ∀ e ∈ s.history, e.1.now ≤ x.now) :
    (s.visit window x).quota.OnlyRecent window x.now ↔ AllForgotten window s.history x := by
  have hlive : (s.visit window x).quota.OnlyRecent window x.now ↔
      (s.quota.live x.clock).OnlyRecent window x.now := by
    rcases s.visit_cases window x with ⟨hq, -⟩ | ⟨hq, -⟩
    · rw [hq]
      simp only [Quota.OnlyRecent, isSome_record]
      grind
    · rw [hq]
  rw [hlive, Quota.OnlyRecent]
  simp only [h.fields_live]
  constructor
  · intro honly i e he hold
    by_contra hkept
    have := honly _ ⟨i, e, he, rfl, hkept⟩
    omega
  · rintro hforgotten b ⟨i, e, he, rfl, hkept⟩
    have hle := (inBucket_currentBucket e.now hw).le hw (inBucket_currentBucket x.now hw)
      (hpast _ (List.mem_of_getElem? he))
    have hnot := mt (hforgotten i e he) hkept
    omega

/-- A run keeps the hash pruned after each execution exactly if at each execution every admission
that lies two buckets back is forgotten. -/
theorem pruned_run_iff {window : ℚ} (hw : 0 < window) (xs : List Visit)
    (hsorted : xs.Pairwise (fun x y => x.now ≤ y.now)) :
    (∀ ys x, ys ++ [x] <+: xs → (visitAll window (ys ++ [x])).quota.Pruned window x.now) ↔
      ∀ ys x, ys ++ [x] <+: xs → AllForgotten window (visitAll window ys).history x := by
  have hstep : ∀ ys x, ys ++ [x] <+: xs →
      ((visitAll window (ys ++ [x])).quota.Pruned window x.now ↔
        AllForgotten window (visitAll window ys).history x) := by
    intro ys x hpre
    obtain ⟨-, -, hlast⟩ := List.pairwise_append.mp (hsorted.sublist hpre.sublist)
    rw [visitAll_snoc, Quota.pruned_iff]
    refine (keeps_visitAll window ys).onlyRecent_iff hw fun e he => ?_
    have hmem : e.1 ∈ ys := by
      rw [← history_visitAll window ys]
      exact List.mem_map_of_mem he
    exact hlast e.1 hmem x (by simp)
  constructor
  · intro h ys x hpre
    exact (hstep ys x hpre).mp (h ys x hpre)
  · intro h ys x hpre
    exact (hstep ys x hpre).mpr (h ys x hpre)

/-- Two requests three minutes apart: the second one finds the key expired. -/
theorem pruned_after_pause :
    (visitAll 60 ([⟨⟨⟨0, 1⟩, 2⟩, 0.9⟩] ++ [⟨⟨⟨180, 1⟩, 2⟩, 180.2⟩])).quota.Pruned 60 180 :=
  (pruned_run_iff (by norm_num) ([⟨⟨⟨0, 1⟩, 2⟩, 0.9⟩] ++ [⟨⟨⟨180, 1⟩, 2⟩, 180.2⟩])
    (by norm_num)).mpr (by
    have hfirst : (visitAll 60 [⟨⟨⟨0, 1⟩, 2⟩, 0.9⟩]).history = [(⟨⟨⟨0, 1⟩, 2⟩, 0.9⟩, true)] := by
      norm_num [visitAll, Visited.visit, slidingWindow, Quota.live, Quota.empty, Quota.weighted,
        Quota.value]
    intro ys x hpre
    rcases ys with _ | ⟨y, _ | ⟨z, zs⟩⟩
    · simp [AllForgotten, visitAll]
    · obtain ⟨rfl, rfl⟩ : y = ⟨⟨⟨0, 1⟩, 2⟩, 0.9⟩ ∧ x = ⟨⟨⟨180, 1⟩, 2⟩, 180.2⟩ := by
        simpa using hpre
      rw [hfirst]
      refine fun i e _ _ => Or.inr ⟨(⟨⟨⟨0, 1⟩, 2⟩, 0.9⟩, true), rfl, ?_⟩
      norm_num
    · simp at hpre) _ ⟨⟨⟨180, 1⟩, 2⟩, 180.2⟩ List.prefix_rfl

/-- One request at the start of each bucket, under a limit of two, by one clock. -/
def steady (window : ℚ) (n : ℕ) : List Visit :=
  (List.range n).map fun i => ⟨⟨⟨i * window, 1⟩, 2⟩, i * window⟩

theorem steady_succ (window : ℚ) (n : ℕ) :
    steady window (n + 1) = steady window n ++ [⟨⟨⟨n * window, 1⟩, 2⟩, n * window⟩] := by
  simp [steady, List.range_succ]

/-- A steady tenant's hash grows with every bucket. -/
theorem steady_fields {window : ℚ} (hw : 0 < window) (n : ℕ) :
    (∀ b : ℤ, (visitAll window (steady window n)).quota.fields b =
        if 0 ≤ b ∧ b < n then some 1 else none) ∧
      ∀ d, (visitAll window (steady window n)).quota.expireAt = some d → n * window < d := by
  induction n with
  | zero => simp [steady, visitAll, Quota.empty]
  | succ n ih =>
    obtain ⟨hfields, hdeadline⟩ := ih
    rw [steady_succ, visitAll_snoc]
    set s := visitAll window (steady window n)
    have hbucket : currentBucket (n * window) window = n := by
      rw [currentBucket, mul_div_assoc, div_self hw.ne', mul_one, Int.floor_natCast]
    have hlive : s.quota.live (n * window) = s.quota := by
      cases hd : s.quota.expireAt with
      | none => simp [Quota.live, hd]
      | some d => simp [Quota.live, hd, not_le.mpr (hdeadline d hd)]
    have hroom : s.quota.Fits (n * window) window 2 1 := by
      have hprev : s.quota.value (n - 1) ≤ 1 := by
        rw [Quota.value, hfields]
        split <;> simp
      have hcur : s.quota.value n = 0 := by simp [Quota.value, hfields]
      rw [Quota.Fits, Quota.weighted, fraction, hbucket, hcur]
      simp only [Int.cast_natCast, sub_self, zero_div, sub_zero, mul_one]
      linarith
    have hstored : (s.visit window ⟨⟨⟨n * window, 1⟩, 2⟩, n * window⟩).quota =
        s.quota.record (n * window) (n * window) window 1 := by
      have hread := slidingWindow_of_fits (n * window) hroom
      rw [← hlive] at hread ⊢
      exact hread.2
    rw [hstored]
    refine ⟨fun b => ?_, fun d hd => ?_⟩
    · by_cases hb : b = n
      · subst hb
        simp [Quota.record, Quota.value, hbucket, hfields]
      · have hbelow : (0 ≤ b ∧ b < ((n + 1 : ℕ) : ℤ)) ↔ (0 ≤ b ∧ b < n) := by omega
        simp only [Quota.record, hbucket, Function.update_of_ne hb, hfields, hbelow]
    · obtain rfl : n * window + window * 2 = d := by simpa [Quota.record] using hd
      push_cast
      linarith

/-- So the number of fields has no bound. -/
theorem steady_encard {window : ℚ} (hw : 0 < window) (n : ℕ) :
    {b | ((visitAll window (steady window n)).quota.fields b).isSome}.encard = n := by
  have hset : {b | ((visitAll window (steady window n)).quota.fields b).isSome} =
      ((Finset.Ico (0 : ℤ) n : Finset ℤ) : Set ℤ) := by
    ext b
    rw [Set.mem_ofPred_eq, (steady_fields hw n).1]
    by_cases hb : 0 ≤ b ∧ b < n <;> simp [hb]
  rw [hset, Set.encard_coe_eq_coe_finsetCard, Int.card_Ico]
  simp

/-- With three requests a minute apart the hash holds three fields at the third. -/
theorem steady_not_pruned :
    ¬∀ ys x, ys ++ [x] <+: steady 60 3 →
      (visitAll 60 (ys ++ [x])).quota.Pruned 60 x.now := by
  intro h
  obtain ⟨-, hcard⟩ := h (steady 60 2) ⟨⟨⟨(2 : ℕ) * 60, 1⟩, 2⟩, (2 : ℕ) * 60⟩
    (by rw [← steady_succ])
  rw [← steady_succ, steady_encard (by norm_num)] at hcard
  norm_num at hcard

end StigmergicMesh.RateLimit
