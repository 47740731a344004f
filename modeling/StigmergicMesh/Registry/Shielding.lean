import Mathlib.Data.List.TakeWhile
import Mathlib.Data.Real.Basic
import StigmergicMesh.Registry.Worker

/-!
# Expired nodes behind a failing deposit

A pass of `prune_unhealthy_workers` catches nothing: a deposit that raises ends it, and the nodes
after it are left for the next pass, which ends at the same node. Whether a deposit raises is a
function of the node here, so the pass is that over any field; the pass over the in-memory field is
an instance.
-/

namespace StigmergicMesh

namespace WorkerRegistry

section AnyField

variable {ε ν : Type*}

/-- The loop of `prune_unhealthy_workers` on the known nodes: `deposit` says what the deposit on a
node ends with, and `keyError` what `del` of a missing entry does. -/
def pruneOver (keyError : String → ε) (deposit : String → Except ε Unit) (alive : String → Bool) :
    List String → Dict String ν → Except ε Unit × Dict String ν
  | [], known => (.ok (), known)
  | nodeId :: rest, known =>
    if alive nodeId then pruneOver keyError deposit alive rest known
    else
      match deposit nodeId with
      | .error e => (.error e, known)
      | .ok () =>
        if nodeId ∈ known.keys then
          pruneOver keyError deposit alive rest (known.erase nodeId)
        else (.error (keyError nodeId), known)

/-- The key of the node is gone and its deposit raises, which ends a pass. -/
def Fails (deposit : String → Except ε Unit) (alive : String → Bool) (n : String) : Prop :=
  alive n = false ∧ deposit n ≠ .ok ()

/-- The key of the node is gone and its deposit goes through. -/
def Dead (deposit : String → Except ε Unit) (alive : String → Bool) (n : String) : Prop :=
  alive n = false ∧ deposit n = .ok ()

/-- What a pass is for: the dead are gone and the living are still known. -/
structure DeadDropped (deposit : String → Except ε Unit) (alive : String → Bool)
    (before after : Dict String ν) : Prop where
  dropped : ∀ n ∈ before.keys, Dead deposit alive n → n ∉ after.keys
  kept : ∀ n ∈ before.keys, alive n = true → n ∈ after.keys

/-- No dead node comes after one that fails. -/
def NoneShielded (deposit : String → Except ε Unit) (alive : String → Bool)
    (ids : List String) : Prop :=
  ids.Pairwise fun m n => ¬(Fails deposit alive m ∧ Dead deposit alive n)

/-- The nodes a pass gets past. -/
def passed (deposit : String → Except ε Unit) (alive : String → Bool) (ids : List String) :
    List String :=
  ids.takeWhile fun n => alive n || (deposit n).isOk

variable {keyError : String → ε} {deposit : String → Except ε Unit} {alive : String → Bool}

theorem fails_iff (n : String) : Fails deposit alive n ↔ ¬(alive n || (deposit n).isOk) := by
  cases hd : deposit n <;> simp [Fails, hd, Except.isOk, Except.toBool]

theorem passed_of_fails {m : String} (h : Fails deposit alive m) (ids : List String) :
    passed deposit alive (m :: ids) = [] :=
  List.takeWhile_cons_of_neg ((fails_iff m).mp h)

theorem passed_of_not_fails {m : String} (h : ¬Fails deposit alive m) (ids : List String) :
    passed deposit alive (m :: ids) = m :: passed deposit alive ids :=
  List.takeWhile_cons_of_pos (not_not.mp (mt (fails_iff m).mpr h))

/-- A pass forgets the nodes it gets past whose key is gone, and no other. -/
theorem keys_pruneOver {ids : List String} (hids : ids.Nodup) {known : Dict String ν}
    (hknown : ∀ m ∈ ids, m ∈ known.keys) :
    (pruneOver keyError deposit alive ids known).2.keys =
      known.keys.filter fun n => ¬(n ∈ passed deposit alive ids ∧ alive n = false) := by
  induction ids generalizing known with
  | nil => simp [pruneOver, passed]
  | cons m ids ih =>
    obtain ⟨hm, hnodup⟩ := List.nodup_cons.mp hids
    have hrest : ∀ k ∈ ids, k ∈ known.keys := fun k hk => hknown k (List.mem_cons_of_mem m hk)
    cases ha : alive m with
    | true =>
      have hpass : ¬Fails deposit alive m := fun h => by simp [Fails, ha] at h
      simp only [pruneOver, ha, if_true, ih hnodup hrest, passed_of_not_fails hpass]
      refine List.filter_congr fun n _ => ?_
      grind
    | false =>
      cases hd : deposit m with
      | error e =>
        have hfails : Fails deposit alive m := ⟨ha, by simp [hd]⟩
        simp [pruneOver, ha, hd, passed_of_fails hfails]
      | ok u =>
        have hpass : ¬Fails deposit alive m := fun h => h.2 hd
        have hrest' : ∀ k ∈ ids, k ∈ (known.erase m).keys := fun k hk =>
          Dict.mem_keys_erase.mpr ⟨fun he => hm (he ▸ hk), hrest k hk⟩
        simp only [pruneOver, ha, hd, hknown m List.mem_cons_self, if_true, Bool.false_eq_true,
          if_false, ih hnodup hrest', Dict.keys_erase, passed_of_not_fails hpass,
          List.filter_filter]
        refine List.filter_congr fun n _ => ?_
        grind

/-- A pass gets past every dead node exactly if none of them is shielded. -/
theorem dead_passed_iff {ids : List String} (hids : ids.Nodup) :
    (∀ n ∈ ids, Dead deposit alive n → n ∈ passed deposit alive ids) ↔
      NoneShielded deposit alive ids := by
  induction ids with
  | nil => simp [NoneShielded]
  | cons m ids ih =>
    obtain ⟨hm, hnodup⟩ := List.nodup_cons.mp hids
    have ih := ih hnodup
    rw [NoneShielded, List.pairwise_cons, ← NoneShielded, ← ih]
    by_cases hfails : Fails deposit alive m
    · have hdead : ¬Dead deposit alive m := fun h => hfails.2 h.2
      rw [passed_of_fails hfails]
      grind
    · rw [passed_of_not_fails hfails]
      grind

theorem deadDropped_iff (known : Dict String ν) :
    DeadDropped deposit alive known (pruneOver keyError deposit alive known.keys known).2 ↔
      NoneShielded deposit alive known.keys := by
  have hids : known.keys.Nodup := known.nodupKeys
  have hmem : ∀ n, n ∈ (pruneOver keyError deposit alive known.keys known).2.keys ↔
      n ∈ known.keys ∧ ¬(n ∈ passed deposit alive known.keys ∧ alive n = false) := by
    simp only [keys_pruneOver hids fun m hm => hm, List.mem_filter, decide_eq_true_eq,
      implies_true]
  rw [← dead_passed_iff hids]
  constructor
  · intro h n hn hdead
    by_contra hpassed
    exact h.dropped n hn hdead ((hmem n).mpr ⟨hn, fun hboth => hpassed hboth.1⟩)
  · refine fun h => ⟨fun n hn hdead hafter => ?_, fun n hn ha => ?_⟩
    · exact ((hmem n).mp hafter).2 ⟨h n hn hdead, hdead.1⟩
    · exact (hmem n).mpr ⟨hn, fun hboth => by simp [ha] at hboth⟩

/-- The next pass gets as far as the last one: with the same keys gone and the same deposits
raising it forgets nothing more. -/
theorem keys_pruneOver_again (known : Dict String ν) :
    let first := (pruneOver keyError deposit alive known.keys known).2
    (pruneOver keyError deposit alive first.keys first).2.keys = first.keys := by
  intro first
  have hfirst : first.keys = known.keys.filter fun n =>
      ¬(n ∈ passed deposit alive known.keys ∧ alive n = false) :=
    keys_pruneOver known.nodupKeys fun m hm => hm
  have hpassed : ∀ n ∈ passed deposit alive first.keys, alive n = true := by
    intro n hn
    -- What the first pass forgot it got past, so the second gets past the rest of that.
    have hsame : (fun n => !decide ¬(n ∈ passed deposit alive known.keys ∧ alive n = false) ||
        (alive n || (deposit n).isOk)) = fun n => alive n || (deposit n).isOk := by
      funext n
      have himp : n ∈ passed deposit alive known.keys → (alive n || (deposit n).isOk) = true :=
        List.mem_takeWhile_imp
      grind
    rw [hfirst, passed, List.takeWhile_filter, hsame] at hn
    have := List.mem_filter.mp hn
    grind [passed]
  have hids : first.keys.Nodup := first.nodupKeys
  rw [keys_pruneOver hids fun m hm => hm]
  refine List.filter_eq_self.mpr fun n _ => decide_eq_true fun hn => ?_
  exact Bool.false_ne_true (hn.2.symm.trans (hpassed n hn.1))

end AnyField

/-! ## The in-memory field -/

section InMemory

variable {K : Type*} [Field K] [LinearOrder K]

/-- What the deposit of a pass on the node ends with. -/
def depositOutcome (f : InMemoryField K) (n : String) : Except FieldError Unit :=
  (f.depositTrace n pruneTrace).1

/-- Rows rewritten in place change no outcome. -/
theorem depositOutcome_eq {f g : InMemoryField K} (h : f.RowsOnly g) :
    depositOutcome g = depositOutcome f := by
  obtain ⟨rows, hlen, rfl⟩ := h
  funext n
  simp only [depositOutcome, InMemoryField.depositTrace, InMemoryField.indexOf,
    InMemoryField.updateRow]
  cases hi : f.nodeIndex.get? n with
  | none => rfl
  | some i => grind

/-- The pass over the in-memory field is the one over its outcomes. -/
theorem pruneNodes_eq_pruneOver (alive : String → Bool) (ids : List String)
    (r : WorkerRegistry K) :
    ((pruneNodes alive ids r).1, (pruneNodes alive ids r).2.known) =
      pruneOver .keyError (depositOutcome r.field) alive ids r.known := by
  induction ids generalizing r with
  | nil => rfl
  | cons m ids ih =>
    have hrows : r.field.RowsOnly (r.field.depositTrace m pruneTrace).2 :=
      r.field.depositTrace_rowsOnly m _
    cases ha : alive m with
    | true => simpa only [pruneNodes, pruneOver, ha, if_true] using ih r
    | false =>
      simp only [pruneNodes, pruneOver, ha, punish, depositOutcome, Bool.false_eq_true, if_false]
      cases (r.field.depositTrace m pruneTrace).1 with
      | error e => rfl
      | ok u =>
        by_cases hm : m ∈ r.known.keys
        · simpa only [forget, hm, if_true, depositOutcome_eq hrows] using
            ih ⟨r.known.erase m, (r.field.depositTrace m pruneTrace).2⟩
        · simp only [forget, hm, if_false]

/-- Over any field, and over the in-memory one, a pass drops every node whose key is gone and whose
own deposit does not raise, and keeps every node whose key is there, exactly if no such node comes
after one whose deposit raises. -/
theorem deadDropped_pass_iff {ε ν : Type*} (keyError : String → ε)
    (deposit : String → Except ε Unit) (alive : String → Bool) (known : Dict String ν)
    (r : WorkerRegistry K) :
    (DeadDropped deposit alive known (pruneOver keyError deposit alive known.keys known).2 ↔
        NoneShielded deposit alive known.keys) ∧
      (DeadDropped (depositOutcome r.field) alive r.known
          (r.pruneUnhealthyWorkers alive).2.known ↔
        NoneShielded (depositOutcome r.field) alive r.known.keys) := by
  refine ⟨deadDropped_iff known, ?_⟩
  have hpass : (r.pruneUnhealthyWorkers alive).2.known =
      (pruneOver .keyError (depositOutcome r.field) alive r.known.keys r.known).2 :=
    congrArg Prod.snd (pruneNodes_eq_pruneOver alive r.known.keys r)
  rw [hpass]
  exact deadDropped_iff r.known

end InMemory

/-! ## Two nodes -/

/-- Two workers have registered, and the first is no longer in the field. -/
noncomputable def removedFirst : WorkerRegistry ℝ :=
  let register (r : WorkerRegistry ℝ) (n : String) :=
    (r.registerWorker 100.0 ⟨some n, some ["slm"], []⟩).2
  let r := register (register ⟨Dict.empty, ⟨[], Dict.empty, [], 0.1, ⟨true, true⟩⟩⟩ "a") "b"
  { r with field := r.field.removeNode "a" }

/-- Both keys are gone; the deposit on the first raises, and the second stays known. -/
theorem removed_node_shields :
    ¬DeadDropped (depositOutcome removedFirst.field) (fun _ => false) removedFirst.known
      (removedFirst.pruneUnhealthyWorkers fun _ => false).2.known := by
  intro h
  have hkeys : (removedFirst.pruneUnhealthyWorkers fun _ => false).2.known.keys = ["a", "b"] := rfl
  exact h.dropped "b" (by decide) ⟨rfl, rfl⟩ (by simp [hkeys])

end WorkerRegistry

end StigmergicMesh
