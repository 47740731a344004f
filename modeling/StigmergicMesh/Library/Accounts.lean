import StigmergicMesh.Library.Tasks
import Mathlib.Algebra.BigOperators.Group.Finset.Piecewise

/-!
# Accounts of the tasks of a run

An amount for each task, added up over the tasks spawned so far. A step changes what one task is
due, so it changes the total by the difference.
-/

namespace StigmergicMesh.Tasks

variable {τ σ γ ι η π : Type*}

variable [DecidableEq τ]

/-- The tasks spawned so far. -/
def names (es : List (Event τ γ ι η)) : Finset τ :=
  (es.filterMap fun
    | .spawn tid _ => some tid
    | _ => none).toFinset

@[simp] theorem names_nil : names ([] : List (Event τ γ ι η)) = ∅ := rfl

theorem names_spawn (es : List (Event τ γ ι η)) (tid : τ) (call : γ) :
    names (es ++ [.spawn tid call]) = insert tid (names es) := by
  ext tid'
  simp [names]

theorem names_resume (es : List (Event τ γ ι η)) (tid : τ) (input : ι) :
    names (es ++ [.resume tid input]) = names es := by
  simp [names]

theorem names_external (es : List (Event τ γ ι η)) (event : η) :
    names (es ++ [.external event]) = names es := by
  simp [names]

variable (P : Program σ γ ι η π)

/-- The tasks of a state are those that the run has spawned. -/
theorem Program.mem_names_iff {x : σ} {es : List (Event τ γ ι η)} {s : State τ σ π}
    (hrun : Run.execAll P.step (.start x) es = some s) (tid : τ) :
    tid ∈ names es ↔ (s.task tid).isSome := by
  refine Run.execAll_induction P.step (P := fun es s => tid ∈ names es ↔ (s.task tid).isSome)
    (by simp [State.start]) ?_ es s hrun
  intro es s e t _ ih hstep
  obtain ⟨tid', call, rfl, -, rfl⟩ | ⟨tid', input, p, x, q, rfl, hp, -, rfl⟩ |
    ⟨event, x, rfl, -, rfl⟩ := P.step_cases hstep
  · rw [names_spawn, Finset.mem_insert, ih]
    by_cases hne : tid = tid'
    · subst hne
      simp
    · simp [hne, s.task_move_of_ne hne]
  · rw [names_resume, ih]
    by_cases hne : tid = tid'
    · subst hne
      simp [hp]
    · rw [s.task_move_of_ne hne]
  · rw [names_external, ih]

/-- Before a task is spawned no step is its own. -/
theorem Program.tid?_ne_of_none {x : σ} {es : List (Event τ γ ι η)} {s : State τ σ π}
    (hrun : Run.execAll P.step (.start x) es = some s) {tid : τ} (hs : s.task tid = none) :
    ∀ e ∈ es, e.tid? ≠ some tid := by
  refine Run.execAll_induction P.step
    (P := fun es s => s.task tid = none → ∀ e ∈ es, e.tid? ≠ some tid) (by simp) ?_ es s hrun hs
  intro es s e t _ ih hstep ht
  have hne : e.tid? ≠ some tid := by
    intro he
    obtain ⟨tid', call, rfl, -, rfl⟩ | ⟨tid', input, p, x, q, rfl, -, -, rfl⟩ |
      ⟨event, x, rfl, -, -⟩ := P.step_cases hstep
    · obtain rfl := Option.some.inj he
      simp at ht
    · obtain rfl := Option.some.inj he
      simp at ht
    · cases he
  rw [P.task_step_of_ne hstep hne] at ht
  simpa [or_imp, forall_and, hne] using ih ht

/-- A task that can be spawned is not there. -/
theorem Program.task_of_spawn {s : State τ σ π} {tid : τ} {call : γ}
    (h : (P.step s (.spawn tid call : Event τ γ ι η)).isSome) : s.task tid = none := by
  obtain ⟨t, ht⟩ := Option.isSome_iff_exists.mp h
  obtain ⟨tid', call', he, hs, -⟩ | ⟨_, _, _, _, _, he, -⟩ | ⟨_, _, he, -⟩ := P.step_cases ht
  · cases he
    exact hs
  · cases he
  · cases he

/-- A task goes on with the call that it was spawned for, if its steps keep the call. -/
theorem Program.spawn_mem (call : π → γ) (hentry : ∀ c, call (P.entry c) = c)
    (hresume : ∀ {i x y p q}, P.resume i x p = some (y, q) → call q = call p) {x : σ}
    {es : List (Event τ γ ι η)} {s : State τ σ π}
    (hrun : Run.execAll P.step (.start x) es = some s) {tid : τ} {p : π}
    (hp : s.task tid = some p) : .spawn tid (call p) ∈ es := by
  have houtline : P.Outline (τ := τ) x (fun _ _ => True) (fun _ _ => True)
      (fun es tid _ p => .spawn tid (call p) ∈ es) :=
    { start := trivial
      spawn := fun es s tid c _ _ _ => ⟨trivial, by simp [hentry]⟩
      resume := fun es s tid i p y q _ hann _ hp hx =>
        ⟨trivial, List.mem_append_left _ (hresume hx ▸ hann.2 tid p hp)⟩
      external := fun _ _ _ _ _ _ _ _ => trivial
      stable := fun es s e t tid p _ _ _ _ _ _ h => List.mem_append_left _ h }
  exact (houtline.run P hrun fun _ _ _ _ _ _ => trivial).2 tid p hp

/-- What the tasks spawned so far are due together. -/
def total {M : Type*} [AddCommMonoid M] (f : τ → M) (es : List (Event τ γ ι η)) : M :=
  ∑ tid ∈ names es, f tid

section Total

variable {M : Type*} [AddCommMonoid M]

@[simp] theorem total_nil (f : τ → M) : total f ([] : List (Event τ γ ι η)) = 0 := rfl

theorem total_external (f : τ → M) (es : List (Event τ γ ι η)) (event : η) :
    total f (es ++ [.external event]) = total f es := by
  rw [total, names_external, total]

/-- The sums of two amounts that differ at one task. -/
theorem sum_add_of_agree {f g : τ → M} {tid : τ} (h : ∀ tid', tid' ≠ tid → g tid' = f tid')
    {T : Finset τ} (ht : tid ∈ T) : ∑ t ∈ T, g t + f tid = ∑ t ∈ T, f t + g tid := by
  have hothers : ∑ t ∈ T.erase tid, g t = ∑ t ∈ T.erase tid, f t :=
    Finset.sum_congr rfl fun t ht => h t (Finset.ne_of_mem_erase ht)
  rw [← Finset.add_sum_erase T g ht, ← Finset.add_sum_erase T f ht, hothers]
  ac_rfl

/-- A step of one task changes the total by the change of what this task is due, which is nothing
before it is spawned. -/
theorem Program.total_step {x : σ} {es : List (Event τ γ ι η)} {s t : State τ σ π}
    (hrun : Run.execAll P.step (.start x) es = some s) {e : Event τ γ ι η}
    (hstep : P.step s e = some t) {tid : τ} (he : e.tid? = some tid) {f g : τ → M}
    (hothers : ∀ tid', tid' ≠ tid → g tid' = f tid') (hnew : s.task tid = none → f tid = 0) :
    total g (es ++ [e]) + f tid = total f es + g tid := by
  obtain ⟨tid', call, rfl, hs, -⟩ | ⟨tid', input, p, x, q, rfl, hp, -, -⟩ |
    ⟨event, x, rfl, -, -⟩ := P.step_cases hstep
  · obtain rfl : tid' = tid := Option.some.inj he
    have hfresh : tid' ∉ names es := by simp [P.mem_names_iff hrun, hs]
    have hsame : ∑ t ∈ names es, g t = ∑ t ∈ names es, f t :=
      Finset.sum_congr rfl fun t ht => hothers t (by rintro rfl; exact hfresh ht)
    rw [total, names_spawn, Finset.sum_insert hfresh, hnew hs, hsame, add_zero, add_comm, total]
  · obtain rfl : tid' = tid := Option.some.inj he
    have hmem : tid' ∈ names es := by simp [P.mem_names_iff hrun, hp]
    rw [total, names_resume, total]
    exact sum_add_of_agree hothers hmem
  · cases he

end Total

/-- A count that each step raises by what becomes true of its task: it counts the tasks of which it
is true. `J` is what is known of the tasks of a run. -/
theorem Program.count_run {x : σ} (C : σ → ℕ) (f : π → Bool) {J : π → Prop}
    (hJ : ∀ {es s}, Run.execAll P.step (.start x) es = some s →
      ∀ (tid : τ) p, s.task tid = some p → J p)
    (hentry : ∀ c, f (P.entry c) = false)
    (hresume : ∀ {i x p y q}, J p → P.resume i x p = some (y, q) →
      C y + (f p).toNat = C x + (f q).toNat)
    (hexternal : ∀ {event x y}, P.external event x = some y → C y = C x)
    {es : List (Event τ γ ι η)} {s : State τ σ π}
    (hrun : Run.execAll P.step (.start x) es = some s) :
    C s.shared = C x + ((names es).filter fun tid => (s.task tid).any f).card := by
  have hcard : ∀ (es : List (Event τ γ ι η)) (s : State τ σ π),
      ((names es).filter fun tid => (s.task tid).any f).card =
        total (fun tid => ((s.task tid).any f).toNat) es := by
    intro es s
    rw [Finset.card_filter, total]
    exact Finset.sum_congr rfl fun tid _ => by cases (s.task tid).any f <;> rfl
  rw [hcard]
  refine Run.execAll_induction P.step
    (P := fun es s => C s.shared = C x + total (fun tid => ((s.task tid).any f).toNat) es)
    rfl ?_ es s hrun
  intro es s e t hs ih hstep
  have moved := fun (tid : τ) (he : e.tid? = some tid) =>
    P.total_step hs hstep he (f := fun tid => ((s.task tid).any f).toNat)
      (g := fun tid => ((t.task tid).any f).toNat)
      (fun tid' hne => by
        rw [P.task_step_of_ne hstep fun h => hne (Option.some.inj (h.symm.trans he))])
      (fun hnone => by simp [hnone])
  obtain ⟨tid, call, rfl, hfree, rfl⟩ | ⟨tid, input, p, y, q, rfl, hp, hy, rfl⟩ |
    ⟨event, y, rfl, hy, rfl⟩ := P.step_cases hstep
  · have htotal := moved tid rfl
    simp only [hfree, State.task_move_self, Option.any_none, Option.any_some, hentry] at htotal
    rw [State.shared_move, ih]
    exact congrArg _ htotal.symm
  · have htotal := moved tid rfl
    simp only [hp, State.task_move_self, Option.any_some] at htotal
    have hcount := hresume (hJ hs tid p hp) hy
    rw [State.shared_move]
    omega
  · rw [total_external]
    exact (hexternal hy).trans ih

end StigmergicMesh.Tasks
