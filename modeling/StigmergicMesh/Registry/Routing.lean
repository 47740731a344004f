import StigmergicMesh.Registry.Worker
import StigmergicMesh.Router.Route

/-!
# Registration and the router's workers

A registration gives the field a row; the router's `workers` dictionary is its own and never grows.
So a draw can choose a node that has no worker, and with a capability context the scores outnumber
the boosts. Routing stays intact exactly as long as only the router's own workers register. Where
NumPy would divide by zero there are no probabilities to draw with, whoever registers.
-/

namespace StigmergicMesh

variable {K : Type*} [Field K] [LinearOrder K]

/-- The calls that change the membership of a registry. -/
inductive RegistryCall (K : Type*) where
  | registerWorker (now : K) (cfg : NodeConfig)
  | pruneUnhealthyWorkers (alive : String → Bool)

/-- The call registers a worker under the id `n`. -/
def RegistryCall.Registers (n : String) : RegistryCall K → Prop
  | .registerWorker _ cfg => cfg.nodeId = some n
  | .pruneUnhealthyWorkers _ => False

namespace WorkerRegistry

/-- A call as the caller leaves it behind, also when it raises. -/
def exec (r : WorkerRegistry K) : RegistryCall K → WorkerRegistry K
  | .registerWorker now cfg => (r.registerWorker now cfg).2
  | .pruneUnhealthyWorkers alive => (r.pruneUnhealthyWorkers alive).2

def run (r : WorkerRegistry K) (calls : List (RegistryCall K)) : WorkerRegistry K :=
  calls.foldl exec r

/-- What a call does to the membership of the field. -/
theorem exec_spec {r : WorkerRegistry K} (h : r.field.Consistent) (c : RegistryCall K) :
    (r.exec c).field.Consistent ∧
      ∀ n, n ∈ (r.exec c).field.nodeIds ↔ n ∈ r.field.nodeIds ∨ c.Registers n := by
  cases c with
  | registerWorker now cfg =>
    cases hid : cfg.nodeId with
    | none => simpa [exec, registerWorker, RegistryCall.Registers, hid] using h
    | some m =>
      have hknown :
          (r.remember m (.array (cfg.tags.map .string)) cfg.toJson now).field.Consistent :=
        h
      obtain ⟨hc, hmem, -⟩ := track_spec hknown m cfg.tags
      simp only [exec, registerWorker, RegistryCall.Registers, hid]
      refine ⟨hc, fun n => ?_⟩
      rw [hmem, field_remember, or_comm, Option.some.injEq, eq_comm]
  | pruneUnhealthyWorkers alive =>
    have hrows := r.pruneUnhealthyWorkers_rowsOnly alive
    exact ⟨hrows.consistent h, fun n => by simp [exec, hrows.nodeIds, RegistryCall.Registers]⟩

theorem run_spec {r : WorkerRegistry K} (h : r.field.Consistent) (calls : List (RegistryCall K)) :
    (r.run calls).field.Consistent ∧
      ∀ n, n ∈ (r.run calls).field.nodeIds ↔
        n ∈ r.field.nodeIds ∨ ∃ c ∈ calls, c.Registers n := by
  induction calls generalizing r with
  | nil => simpa [run] using h
  | cons c calls ih =>
    obtain ⟨hc, hmem⟩ := exec_spec h c
    obtain ⟨hrun, hmems⟩ := ih hc
    refine ⟨hrun, fun n => ?_⟩
    refine (hmems n).trans ?_
    rw [hmem]
    simp [or_assoc]

end WorkerRegistry

namespace Router

/-- Every draw from a field with a node gives a worker, whatever the context and the overrides, as
long as NumPy divides by no zero. -/
def Routable [Transcendental K] (router : Router K) (field : InMemoryField K) : Prop :=
  field.nodeIds ≠ [] → ∀ capabilityContext weightsOverride,
    router.Finite field.getStateVector weightsOverride → ∀ draw, draw < field.nodeIds.length →
      ∃ worker, router.sampleWorker field capabilityContext weightsOverride draw = .ok worker

/-- Overrides that weigh neither latency nor saturation divide by `_EPS`. -/
def unweighted : Dict String K := (Dict.empty.set "beta" 0).set "gamma" 0

theorem finite_unweighted [IsStrictOrderedRing K] {router : Router K}
    (hT : router.temperature ≠ 0) (state : List (Row K)) :
    router.Finite state (some unweighted) where
  temperature := hT
  denominator r _ := by
    have hbeta : (router.weightsFor (some unweighted)).beta = 0 := by
      simp [weightsFor, unweighted, Dict.getD, Dict.get?_set]
    have hgamma : (router.weightsFor (some unweighted)).gamma = 0 := by
      simp [weightsFor, unweighted, Dict.getD, Dict.get?_set]
    rw [scoreDenominator, hbeta, hgamma, zero_mul, zero_mul, add_zero, zero_add]
    exact eps_pos.ne'

/-! ## Lengths -/

theorem boosted_of_length (router : Router K) {scores : List K}
    (h : scores.length = router.workers.values.length) (context : Option (Dict String K)) :
    ∃ ys, router.boosted scores context = .ok ys ∧ ys.length = scores.length := by
  cases context with
  | none => exact ⟨scores, rfl, rfl⟩
  | some context =>
    simp only [boosted]
    split
    · exact ⟨scores, rfl, rfl⟩
    · exact ⟨_, if_pos (by simpa using h), by simp [h]⟩

theorem computeProbabilities_length [Transcendental K] (router : Router K) {scores : List K}
    (h : scores ≠ []) :
    ∃ ps, router.computeProbabilities scores = .ok ps ∧ ps.length = scores.length := by
  obtain ⟨top, htop⟩ := router.computeProbabilities_of_ne_nil h
  exact ⟨_, htop, by simp⟩

/-- With as many scores as nodes a draw is a lookup of the drawn node's worker. -/
theorem sampleWorker_of_lengths [Transcendental K] {router : Router K} {field : InMemoryField K}
    {context weightsOverride : Option (Dict String K)} {scores : List K}
    (hb : router.boosted (router.computeScores field.getStateVector weightsOverride) context =
      .ok scores)
    (hs : scores.length = field.nodeIds.length) {draw : Nat} {n : String}
    (hn : field.nodeIds[draw]? = some n) :
    router.sampleWorker field context weightsOverride draw =
      match router.workers.get? n with
      | none => .error (.keyError n)
      | some worker => .ok worker := by
  have hne : scores ≠ [] := by
    rintro rfl
    have := (List.getElem?_eq_some_iff.mp hn).1
    simp at hs
    omega
  obtain ⟨ps, hps, hlen⟩ := router.computeProbabilities_length hne
  simp only [sampleWorker, hb, hps, hn]
  exact if_neg (by simp [hlen.trans hs])

/-- Over the same ids, every draw gives a worker. -/
theorem sampleWorker_of_sameIds [Transcendental K] {router : Router K} {field : InMemoryField K}
    (hf : field.Consistent) (hsame : ∀ n, n ∈ router.workers.keys ↔ n ∈ field.nodeIds)
    (context weightsOverride : Option (Dict String K)) {draw : Nat}
    (hdraw : draw < field.nodeIds.length) :
    ∃ worker, router.sampleWorker field context weightsOverride draw = .ok worker := by
  have hscores := router.computeScores_length hf
  have hperm : router.workers.keys.Perm field.nodeIds :=
    (List.perm_ext_iff_of_nodup router.workers.nodupKeys hf.nodup).mpr hsame
  have hvalues : router.workers.values.length = field.nodeIds.length := by
    rw [← hperm.length_eq]
    simp [Dict.values, Dict.keys]
  obtain ⟨scores, hb, hlen⟩ := router.boosted_of_length
    (by rw [hscores weightsOverride, hvalues]) context
  have hget := List.getElem?_eq_getElem hdraw
  rw [sampleWorker_of_lengths hb (hlen.trans (hscores weightsOverride)) hget]
  obtain ⟨worker, hw⟩ := Option.isSome_iff_exists.mp
    ((Dict.mem_keys_iff _ _).mp ((hsame _).mpr (List.getElem_mem hdraw)))
  exact ⟨worker, by rw [hw]⟩

/-- Over a field with at least the router's workers, every draw gives a worker exactly if there
are no other nodes. -/
theorem routable_iff [IsStrictOrderedRing K] [Transcendental K] {router : Router K}
    (hT : router.temperature ≠ 0) {field : InMemoryField K} (hf : field.Consistent)
    (hsub : ∀ n ∈ router.workers.keys, n ∈ field.nodeIds) :
    router.Routable field ↔ ∀ n ∈ field.nodeIds, n ∈ router.workers.keys := by
  constructor
  · intro hroute n hn
    obtain ⟨draw, hdraw, hget⟩ := List.mem_iff_getElem.mp hn
    obtain ⟨worker, hworker⟩ := hroute (List.ne_nil_of_mem hn) none (some unweighted)
      (finite_unweighted hT _) draw hdraw
    rw [sampleWorker_of_lengths rfl (router.computeScores_length hf _)
      (List.getElem?_eq_some_iff.mpr ⟨hdraw, hget⟩)] at hworker
    rw [Dict.mem_keys_iff]
    cases hw : router.workers.get? n with
    | none => simp [hw] at hworker
    | some w => rfl
  · intro hsup _ context weightsOverride _ draw hdraw
    exact sampleWorker_of_sameIds hf (fun n => ⟨hsub n, hsup n⟩) context weightsOverride hdraw

/-- From a router and a field over the same ids, any registrations and prunings leave routing
intact exactly if every registered worker is one of the router's. -/
theorem dynamic_registration_iff [IsStrictOrderedRing K] [Transcendental K] (router : Router K)
    (hT : router.temperature ≠ 0) (r : WorkerRegistry K) (hf : r.field.Consistent)
    (hsame : ∀ n, n ∈ router.workers.keys ↔ n ∈ r.field.nodeIds)
    (calls : List (RegistryCall K)) :
    router.Routable (r.run calls).field ↔
      ∀ c ∈ calls, ∀ n, c.Registers n → n ∈ router.workers.keys := by
  obtain ⟨hc, hmem⟩ := r.run_spec hf calls
  rw [routable_iff hT hc fun n hn => (hmem n).mpr (Or.inl ((hsame n).mp hn))]
  constructor
  · exact fun h c hcall n hn => h n ((hmem n).mpr (Or.inr ⟨c, hcall, hn⟩))
  · intro h n hn
    rcases (hmem n).mp hn with hold | ⟨c, hcall, hreg⟩
    · exact (hsame n).mpr hold
    · exact h c hcall n hreg

/-! ## One worker -/

/-- A registry over the field of `sampleRouter`'s worker, which has not registered yet. -/
noncomputable def sampleRegistry : WorkerRegistry ℝ := ⟨Dict.empty, sampleField Row.defaultState⟩

theorem sampleRegistry_sameIds (n : String) :
    n ∈ sampleRouter.workers.keys ↔ n ∈ sampleRegistry.field.nodeIds := by
  simp [sampleRouter, Router.new, Dict.keys, sampleRegistry, sampleField]

theorem sampleRouter_temperature : sampleRouter.temperature ≠ 0 := by
  norm_num [sampleRouter, Router.new]

theorem dynamic_registration_iff_known :
    sampleRouter.Routable (sampleRegistry.run [.registerWorker 100.0 ⟨some "a", none, []⟩,
      .pruneUnhealthyWorkers fun _ => false]).field := by
  refine (dynamic_registration_iff sampleRouter sampleRouter_temperature sampleRegistry
    (sampleField_consistent _) sampleRegistry_sameIds _).mpr ?_
  simp [RegistryCall.Registers, sampleRouter, Router.new, Dict.keys]

/-- A newcomer can be drawn and has no worker. -/
theorem newcomer_breaks_routing :
    ¬sampleRouter.Routable
      (sampleRegistry.run [.registerWorker 100.0 ⟨some "b", none, []⟩]).field := by
  obtain ⟨hc, hmem⟩ := sampleRegistry.run_spec (sampleField_consistent _)
    [.registerWorker 100.0 ⟨some "b", none, []⟩]
  rw [routable_iff sampleRouter_temperature hc fun n hn => (hmem n).mpr
    (Or.inl ((sampleRegistry_sameIds n).mp hn))]
  intro h
  have hb := h "b" ((hmem "b").mpr (Or.inr ⟨_, List.mem_cons_self, rfl⟩))
  simp [sampleRouter, Router.new, Dict.keys] at hb

end Router

end StigmergicMesh
