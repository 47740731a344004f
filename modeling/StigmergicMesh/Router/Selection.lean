import StigmergicMesh.Router.Route
import StigmergicMesh.Router.WellDefined

/-!
# Which probability goes to which node

`sample_worker` multiplies the scores, which follow the field's node ids, by capability matches
that follow the workers dictionary. When the two list the same ids in different orders, a node's
score is boosted by the match of another worker.
-/

namespace StigmergicMesh

namespace Router

section Definitions

variable {K : Type*} [Field K] [LinearOrder K]

/-- The probabilities `p` that `sample_worker` hands to the generator's `choice`. -/
def choiceProbabilities [Transcendental K] (router : Router K) (state : List (Row K))
    (capabilityContext weightsOverride : Option (Dict String K)) : Except FieldError (List K) :=
  match router.boosted (router.computeScores state weightsOverride) capabilityContext with
  | .error e => .error e
  | .ok scores => router.computeProbabilities scores

/-- The capability match of the worker registered under an id; zero if there is none. -/
def capabilityOf (router : Router K) (context : Dict String K) (nodeId : String) : K :=
  ((router.workers.get? nodeId).map (computeCapabilityMatch · (some context))).getD 0

/-- Every node's score times the match of its own worker. -/
def boostedByNode (router : Router K) (field : InMemoryField K) (context : Dict String K)
    (weightsOverride : Option (Dict String K)) : List K :=
  List.zipWith (· * ·) (router.computeScores field.getStateVector weightsOverride)
    (field.nodeIds.map (router.capabilityOf context))

/-- Draw `i` has the Boltzmann probability of node `i`'s own boosted score and returns the worker
of node `i`. -/
def BoostsAligned (router : Router ℝ) (field : InMemoryField ℝ) (context : Dict String ℝ)
    (weightsOverride : Option (Dict String ℝ)) : Prop :=
  ∀ (i : ℕ) nodeId, field.nodeIds[i]? = some nodeId → ∃ worker ps,
    router.workers.get? nodeId = some worker ∧
    router.choiceProbabilities field.getStateVector (some context) weightsOverride = .ok ps ∧
    ps[i]? = (boltzmann router.temperature
      (router.boostedByNode field context weightsOverride))[i]? ∧
    router.sampleWorker field (some context) weightsOverride i = .ok worker

/-- What the order of the dictionary adds to a node's boosted score is the same for every node. -/
def SameShift (router : Router K) (field : InMemoryField K) (context : Dict String K)
    (weightsOverride : Option (Dict String K)) : Prop :=
  ∃ shift, ∀ (i : ℕ) nodeId key s, field.nodeIds[i]? = some nodeId →
    router.workers.keys[i]? = some key →
    (router.computeScores field.getStateVector weightsOverride)[i]? = some s →
    s * router.capabilityOf context key - s * router.capabilityOf context nodeId = shift

end Definitions

/-! ## What is drawn -/

/-- `sample_worker` draws an index with these probabilities and looks the worker of its id up. -/
theorem sampleWorker_eq {K : Type*} [Field K] [LinearOrder K] [Transcendental K]
    (router : Router K) (field : InMemoryField K)
    (capabilityContext weightsOverride : Option (Dict String K)) (draw : ℕ) :
    router.sampleWorker field capabilityContext weightsOverride draw =
      match router.choiceProbabilities field.getStateVector capabilityContext weightsOverride with
      | .error e => .error e
      | .ok probs =>
        if probs.length ≠ field.nodeIds.length then
          .error (.valueError "a and p must have same size")
        else
          match field.nodeIds[draw]? with
          | none => .error .indexError
          | some chosenId =>
            match router.workers.get? chosenId with
            | none => .error (.keyError chosenId)
            | some worker => .ok worker := by
  simp only [sampleWorker, choiceProbabilities]
  cases router.boosted (router.computeScores field.getStateVector weightsOverride)
    capabilityContext <;> rfl

section Boosted

variable {K : Type*} [Field K] [LinearOrder K] {router : Router K} {field : InMemoryField K}

/-- Boosts that follow the dictionary. -/
theorem boosted_eq (hlen : router.workers.keys.length = field.nodeIds.length)
    (hf : field.Consistent) {context : Dict String K} (hcontext : context.entries ≠ [])
    (weightsOverride : Option (Dict String K)) :
    router.boosted (router.computeScores field.getStateVector weightsOverride) (some context) =
      .ok (List.zipWith (· * ·) (router.computeScores field.getStateVector weightsOverride)
        (router.workers.keys.map (router.capabilityOf context))) := by
  have hvalues := router.workers.map_values (computeCapabilityMatch · (some context)) 0
  have hscores : (router.computeScores field.getStateVector weightsOverride).length =
      (router.workers.keys.map (router.capabilityOf context)).length := by
    rw [computeScores_length router hf, List.length_map, hlen]
  simp only [boosted, List.isEmpty_iff, if_neg hcontext, hvalues, broadcastMul]
  exact if_pos hscores

end Boosted

/-- Two orders of one list have the same sums. -/
theorem sum_zip_eq {α M : Type*} [AddCommMonoid M] {xs ys : List α} (h : xs.Perm ys)
    (f : α → M) :
    ((xs.zip ys).map (fun p => f p.1)).sum = ((xs.zip ys).map (fun p => f p.2)).sum := by
  have hfst : (xs.zip ys).map (fun p => f p.1) = xs.map f := by
    conv_rhs => rw [← List.map_fst_zip h.length_eq.le, List.map_map]
    rfl
  have hsnd : (xs.zip ys).map (fun p => f p.2) = ys.map f := by
    conv_rhs => rw [← List.map_snd_zip h.length_eq.ge, List.map_map]
    rfl
  rw [hfst, hsnd]
  exact (h.map f).sum_eq

/-- Two orders of one list that differ by a common shift, up to positive factors, do not differ. -/
theorem eq_of_common_shift {α K : Type*} [Field K] [LinearOrder K] [IsStrictOrderedRing K]
    {xs ys : List α} (h : xs.Perm ys) (f : α → K) (shift : K)
    (hdiff : ∀ p ∈ xs.zip ys, ∃ s, 0 < s ∧ s * (f p.1 - f p.2) = shift) :
    ∀ p ∈ xs.zip ys, f p.1 = f p.2 := by
  -- Both orders have the same sum, so they cannot all differ in one direction.
  have hsum := sum_zip_eq h f
  intro p hp
  rcases lt_trichotomy shift 0 with hneg | hzero | hpos
  · have hlt := List.sum_lt_sum_of_ne_nil (List.ne_nil_of_mem hp) (fun p => f p.1)
      (fun p => f p.2) fun q hq => by
        obtain ⟨t, ht, hteq⟩ := hdiff q hq
        nlinarith
    exact absurd hsum hlt.ne
  · obtain ⟨s, hs, heq⟩ := hdiff p hp
    rw [hzero] at heq
    exact sub_eq_zero.mp ((mul_eq_zero.mp heq).resolve_left hs.ne')
  · have hlt := List.sum_lt_sum_of_ne_nil (List.ne_nil_of_mem hp) (fun p => f p.2)
      (fun p => f p.1) fun q hq => by
        obtain ⟨t, ht, hteq⟩ := hdiff q hq
        nlinarith
    exact absurd hsum hlt.ne'

/-- Among positive scores the shift is the same only where it is zero: the workers at each place
of the dictionary and of the node ids match the request equally well. -/
theorem sameShift_iff_of_pos {K : Type*} [Field K] [LinearOrder K] [IsStrictOrderedRing K]
    {router : Router K} {field : InMemoryField K} (hf : field.Consistent)
    (hids : ∀ nodeId, nodeId ∈ router.workers.keys ↔ nodeId ∈ field.nodeIds)
    (context : Dict String K) (weightsOverride : Option (Dict String K))
    (hpos : ∀ s ∈ router.computeScores field.getStateVector weightsOverride, 0 < s) :
    router.SameShift field context weightsOverride ↔
      ∀ p ∈ router.workers.keys.zip field.nodeIds,
        router.capabilityOf context p.1 = router.capabilityOf context p.2 := by
  have hperm : router.workers.keys.Perm field.nodeIds :=
    (List.perm_ext_iff_of_nodup router.workers.nodupKeys hf.nodup).mpr hids
  set f := router.capabilityOf context
  set scores := router.computeScores field.getStateVector weightsOverride
  have hscores : scores.length = field.nodeIds.length :=
    computeScores_length router hf weightsOverride
  constructor
  · rintro ⟨shift, hshift⟩
    refine eq_of_common_shift hperm f shift fun p hp => ?_
    obtain ⟨i, hi⟩ := List.mem_iff_getElem?.mp hp
    obtain ⟨hkey, hid⟩ := List.getElem?_zip_eq_some.mp hi
    have hlt : i < scores.length := by
      rw [hscores]
      exact (List.getElem?_eq_some_iff.mp hid).1
    have hs := List.getElem?_eq_getElem hlt
    refine ⟨scores[i], hpos _ (List.mem_of_getElem? hs), ?_⟩
    rw [mul_sub]
    exact hshift i p.2 p.1 _ hid hkey hs
  · intro h
    refine ⟨0, fun i nodeId key s hid hkey _ => ?_⟩
    have hmem : (key, nodeId) ∈ router.workers.keys.zip field.nodeIds :=
      List.mem_of_getElem? (List.getElem?_zip_eq_some.mpr ⟨hkey, hid⟩)
    have hmatch : f key = f nodeId := h _ hmem
    show s * f key - s * f nodeId = 0
    rw [hmatch, sub_self]

section Aligned

variable {router : Router ℝ} {field : InMemoryField ℝ} {context : Dict String ℝ}

/-- The probabilities of a field that tracks a node. -/
theorem choiceProbabilities_eq (hlen : router.workers.keys.length = field.nodeIds.length)
    (hf : field.Consistent) (hne : field.nodeIds ≠ []) (hcontext : context.entries ≠ [])
    (weightsOverride : Option (Dict String ℝ)) :
    router.choiceProbabilities field.getStateVector (some context) weightsOverride =
      .ok (boltzmann router.temperature
        (List.zipWith (· * ·) (router.computeScores field.getStateVector weightsOverride)
          (router.workers.keys.map (router.capabilityOf context)))) := by
  rw [choiceProbabilities, boosted_eq hlen hf hcontext]
  apply computeProbabilities_eq
  rw [← List.length_pos_iff] at hne ⊢
  simpa [computeScores_length router hf, hlen] using hne

/-- So the boosts are aligned if these are the probabilities of the nodes' own boosted scores. -/
theorem boostsAligned_iff_boltzmann
    (hids : ∀ nodeId, nodeId ∈ router.workers.keys ↔ nodeId ∈ field.nodeIds)
    (hlen : router.workers.keys.length = field.nodeIds.length) (hf : field.Consistent)
    (hne : field.nodeIds ≠ []) (hcontext : context.entries ≠ [])
    (weightsOverride : Option (Dict String ℝ)) :
    router.BoostsAligned field context weightsOverride ↔
      boltzmann router.temperature
          (List.zipWith (· * ·) (router.computeScores field.getStateVector weightsOverride)
            (router.workers.keys.map (router.capabilityOf context))) =
        boltzmann router.temperature (router.boostedByNode field context weightsOverride) := by
  have hprobs := choiceProbabilities_eq hlen hf hne hcontext weightsOverride
  have hscores := computeScores_length router hf weightsOverride
  constructor
  · intro h
    apply List.ext_getElem?
    intro i
    cases hi : field.nodeIds[i]? with
    | none =>
      have hge := List.getElem?_eq_none_iff.mp hi
      rw [List.getElem?_eq_none, List.getElem?_eq_none]
      · simp [boltzmann, boostedByNode, hscores, hge]
      · simp [boltzmann, hscores, hge]
    | some nodeId =>
      obtain ⟨-, ps, -, hps, hentry, -⟩ := h i nodeId hi
      rw [hprobs, Except.ok.injEq] at hps
      rw [hps, hentry]
  · intro h i nodeId hi
    have hregistered := (router.workers.mem_keys_iff nodeId).mp
      ((hids nodeId).mpr (List.mem_of_getElem? hi))
    obtain ⟨worker, hworker⟩ := Option.isSome_iff_exists.mp hregistered
    refine ⟨worker, _, hworker, hprobs, by rw [h], ?_⟩
    rw [sampleWorker_eq, hprobs]
    simp [boltzmann, hscores, hlen, hi, hworker]

/-- A field without nodes draws nothing. -/
theorem boostsAligned_of_empty (router : Router ℝ) (context : Dict String ℝ)
    (hne : field.nodeIds = []) (weightsOverride : Option (Dict String ℝ)) :
    router.BoostsAligned field context weightsOverride ∧
      router.SameShift field context weightsOverride := by
  simp [BoostsAligned, SameShift, hne]

/-- Two lists of scores have the same probabilities exactly if they differ by a constant. -/
theorem boltzmann_eq_iff {temperature : ℝ} (hT : temperature ≠ 0) {xs ys : List ℝ}
    (hlen : xs.length = ys.length) :
    boltzmann temperature xs = boltzmann temperature ys ↔
      ∃ c, ∀ (i : ℕ) (x y : ℝ), xs[i]? = some x → ys[i]? = some y → x - y = c := by
  rw [boltzmann_eq_softmax, boltzmann_eq_softmax, Softmax.softmax_eq_iff (by simpa using hlen)]
  constructor
  · rintro ⟨c, hc⟩
    refine ⟨c * temperature, fun i x y hx hy => ?_⟩
    have hdiff := hc i (x / temperature) (y / temperature) (by simp [hx]) (by simp [hy])
    rw [← hdiff, ← sub_div, div_mul_cancel₀ _ hT]
  · rintro ⟨c, hc⟩
    refine ⟨c / temperature, fun i x y hx hy => ?_⟩
    simp only [List.getElem?_map, Option.map_eq_some_iff] at hx hy
    obtain ⟨x, hx, rfl⟩ := hx
    obtain ⟨y, hy, rfl⟩ := hy
    rw [← sub_div, hc i x y hx hy]

/-- With the same ids in whatever orders, and nothing divided by zero, the boosts reach the right
nodes exactly if the order of the dictionary shifts every node's boosted score by the same
amount. -/
theorem boostsAligned_iff (router : Router ℝ) (field : InMemoryField ℝ) (hf : field.Consistent)
    (hids : ∀ nodeId, nodeId ∈ router.workers.keys ↔ nodeId ∈ field.nodeIds)
    (context : Dict String ℝ) (hcontext : context.entries ≠ [])
    (weightsOverride : Option (Dict String ℝ))
    (hfinite : router.Finite field.getStateVector weightsOverride) :
    router.BoostsAligned field context weightsOverride ↔
      router.SameShift field context weightsOverride := by
  by_cases hne : field.nodeIds = []
  · obtain ⟨haligned, hshift⟩ := boostsAligned_of_empty router context hne weightsOverride
    exact iff_of_true haligned hshift
  have hperm : router.workers.keys.Perm field.nodeIds :=
    (List.perm_ext_iff_of_nodup router.workers.nodupKeys hf.nodup).mpr hids
  rw [boostsAligned_iff_boltzmann hids hperm.length_eq hf hne hcontext,
    boltzmann_eq_iff hfinite.temperature (by simp [boostedByNode, hperm.length_eq])]
  refine exists_congr fun shift => ⟨fun h i nodeId key s hid hkey hs => ?_, fun h i x y hx hy => ?_⟩
  · exact h i _ _ (List.getElem?_zipWith_eq_some.mpr ⟨s, _, hs, by simp [hkey], rfl⟩)
      (List.getElem?_zipWith_eq_some.mpr ⟨s, _, hs, by simp [hid], rfl⟩)
  · obtain ⟨s, _, hs, hboost, rfl⟩ := List.getElem?_zipWith_eq_some.mp hx
    obtain ⟨s', _, hs', hown, rfl⟩ := List.getElem?_zipWith_eq_some.mp hy
    obtain rfl : s = s' := Option.some.inj (hs.symm.trans hs')
    rw [List.getElem?_map, Option.map_eq_some_iff] at hboost hown
    obtain ⟨key, hkey, rfl⟩ := hboost
    obtain ⟨nodeId, hid, rfl⟩ := hown
    exact h i nodeId key s hid hkey hs

end Aligned

/-! ## A node that left and came back -/

/-- One worker for GPU jobs and one for CPU jobs. -/
noncomputable def twoTags : Router ℝ :=
  .new ⟨[("a", ⟨"a", ["gpu"]⟩), ("b", ⟨"b", ["cpu"]⟩)], by simp⟩ none none none

noncomputable def twoNodes : InMemoryField ℝ :=
  ⟨["a", "b"], Dict.enumerate ["a", "b"], List.replicate 2 Row.defaultState, 0.1, ⟨true, true⟩⟩

theorem twoNodes_consistent : twoNodes.Consistent :=
  (InMemoryField.consistent_new (by simp : ["a", "b"].Nodup) none rfl).1

def gpuJob : Dict String ℝ := ⟨[("gpu", 1)], by simp⟩

theorem twoTags_finite {state : List (Row ℝ)} (h : ∀ r ∈ state, r = Row.defaultState) :
    twoTags.Finite state none where
  temperature := by norm_num [twoTags, Router.new]
  denominator r hr := by
    rw [h r hr]
    norm_num [scoreDenominator, weightsFor, twoTags, Router.new, Dict.getD, Row.defaultState, eps]

/-- In the order of registration every boost reaches its node. -/
theorem boostsAligned_in_order : twoTags.BoostsAligned twoNodes gpuJob none :=
  (boostsAligned_iff twoTags twoNodes twoNodes_consistent (fun _ => Iff.rfl) gpuJob
    (by simp [gpuJob]) none (twoTags_finite fun _ => List.eq_of_mem_replicate)).mpr
    ⟨0, fun i nodeId key s hid hkey _ => by
      obtain rfl : key = nodeId := Option.some.inj (hkey.symm.trans hid)
      exact sub_self _⟩

/-- Once node `a` has been removed and added again, it takes the boost of `b`. -/
theorem rejoined_not_aligned :
    ¬twoTags.BoostsAligned (twoNodes.run [.removeNode "a", .addNode "a" ["gpu"]]) gpuJob none := by
  set field := twoNodes.run [.removeNode "a", .addNode "a" ["gpu"]]
  have hf : field.Consistent := (twoNodes_consistent.run _).1
  have hnodes : field.nodeIds = ["b", "a"] := rfl
  have hworkers : twoTags.workers.keys = ["a", "b"] := rfl
  have hpos : 0 < score (twoTags.weightsFor none) (Row.defaultState : Row ℝ) := by
    norm_num [score, scoreNumerator, scoreDenominator, weightsFor, twoTags, Router.new, Dict.getD,
      Row.defaultState, eps]
  have hscores : twoTags.computeScores field.getStateVector none =
      [score (twoTags.weightsFor none) Row.defaultState,
        score (twoTags.weightsFor none) Row.defaultState] := rfl
  have hgpu : twoTags.capabilityOf gpuJob "a" = 1 := by
    have hworker : twoTags.workers.get? "a" = some ⟨"a", ["gpu"]⟩ := rfl
    norm_num [capabilityOf, hworker, computeCapabilityMatch, gpuJob, Dict.values]
  have hcpu : twoTags.capabilityOf gpuJob "b" = 0 := by
    have hworker : twoTags.workers.get? "b" = some ⟨"b", ["cpu"]⟩ := rfl
    simp [capabilityOf, hworker, computeCapabilityMatch, gpuJob, Dict.values]
  rw [boostsAligned_iff_boltzmann (by simp [hnodes, hworkers, or_comm])
    (by rw [hnodes, hworkers]; rfl) hf (by simp [hnodes]) (by simp [gpuJob]),
    boltzmann_eq_iff (by norm_num [twoTags, Router.new])
      (by simp [boostedByNode, hnodes, hworkers])]
  rintro ⟨c, hc⟩
  simp only [hscores, hworkers, boostedByNode, hnodes, List.map_cons, List.map_nil, hgpu,
    hcpu] at hc
  have hfirst := hc 0 _ _ rfl rfl
  have hsecond := hc 1 _ _ rfl rfl
  linarith

end Router

end StigmergicMesh
