import StigmergicMesh.Library.Run
import Mathlib.Logic.Function.Basic

/-!
# Coroutines over a shared state

Any number of tasks, each at a program point of its own, and a state they share. A task runs from
one suspension to the next in one step, between which every other task can run; what it learns
from outside when it resumes (a clock, the outcome of a request) is the input of the step. The
surroundings can change the shared state too.

`step_cases` says once what a step does. An `Outline` is a proof outline in the sense of Owicki
and Gries: an invariant of the shared state and an assertion about each task that its own steps
establish and the steps of the others keep. Both may speak about the events so far.
-/

namespace StigmergicMesh.Tasks

/-- The program all tasks run: where a call starts and what a task does when it resumes. A point
with nothing left to do refuses every input. -/
structure Program (σ γ ι η π : Type*) where
  entry : γ → π
  resume : ι → σ → π → Option (σ × π)
  external : η → σ → Option σ

structure State (τ σ π : Type*) where
  shared : σ
  task : τ → Option π

inductive Event (τ γ ι η : Type*) where
  | spawn (tid : τ) (call : γ)
  | resume (tid : τ) (input : ι)
  | external (event : η)

variable {τ σ γ ι η π : Type*}

/-- No task has been spawned. -/
def State.start (x : σ) : State τ σ π := ⟨x, fun _ => none⟩

/-- The task that takes the step. -/
def Event.tid? : Event τ γ ι η → Option τ
  | .spawn tid _ => some tid
  | .resume tid _ => some tid
  | .external _ => none

variable [DecidableEq τ]

/-- Task `tid` has moved to `p` and left the shared state `x`. -/
def State.move (s : State τ σ π) (tid : τ) (x : σ) (p : π) : State τ σ π :=
  ⟨x, Function.update s.task tid (some p)⟩

@[simp] theorem State.shared_move (s : State τ σ π) (tid : τ) (x : σ) (p : π) :
    (s.move tid x p).shared = x := rfl

@[simp] theorem State.task_move_self (s : State τ σ π) (tid : τ) (x : σ) (p : π) :
    (s.move tid x p).task tid = some p := Function.update_self ..

theorem State.task_move_of_ne (s : State τ σ π) {tid tid' : τ} (h : tid' ≠ tid) (x : σ) (p : π) :
    (s.move tid x p).task tid' = s.task tid' := Function.update_of_ne h ..

@[simp] theorem State.move_move (s : State τ σ π) (tid : τ) (x y : σ) (p q : π) :
    (s.move tid x p).move tid y q = s.move tid y q := by
  simp [move]

namespace Program

variable (P : Program σ γ ι η π)

/-- One step; a name in use is not given to a second task. -/
def step (s : State τ σ π) : Event τ γ ι η → Option (State τ σ π)
  | .spawn tid call =>
    match s.task tid with
    | some _ => none
    | none => some (s.move tid s.shared (P.entry call))
  | .resume tid input =>
    match s.task tid with
    | none => none
    | some p => (P.resume input s.shared p).map fun next => s.move tid next.1 next.2
  | .external event => (P.external event s.shared).map fun x => { s with shared := x }

/-- What one step can do. -/
theorem step_cases {s t : State τ σ π} {e : Event τ γ ι η} (h : P.step s e = some t) :
    (∃ tid call, e = .spawn tid call ∧ s.task tid = none ∧
      t = s.move tid s.shared (P.entry call)) ∨
    (∃ tid input p x q, e = .resume tid input ∧ s.task tid = some p ∧
      P.resume input s.shared p = some (x, q) ∧ t = s.move tid x q) ∨
    (∃ event x, e = .external event ∧ P.external event s.shared = some x ∧
      t = { s with shared := x }) := by
  cases e with
  | spawn tid call =>
    simp only [step] at h
    split at h
    · cases h
    · exact Or.inl ⟨tid, call, rfl, ‹_›, (Option.some.inj h).symm⟩
  | resume tid input =>
    simp only [step] at h
    split at h
    · cases h
    · obtain ⟨⟨x, q⟩, hx, rfl⟩ := Option.map_eq_some_iff.mp h
      exact Or.inr (Or.inl ⟨tid, input, _, x, q, rfl, ‹_›, hx, rfl⟩)
  | external event =>
    obtain ⟨x, hx, rfl⟩ := Option.map_eq_some_iff.mp h
    exact Or.inr (Or.inr ⟨event, x, rfl, hx, rfl⟩)

/-- A step leaves the tasks that do not take it where they are. -/
theorem task_step_of_ne {s t : State τ σ π} {e : Event τ γ ι η} (h : P.step s e = some t)
    {tid : τ} (hne : e.tid? ≠ some tid) : t.task tid = s.task tid := by
  obtain ⟨tid', call, rfl, -, rfl⟩ | ⟨tid', input, p, x, q, rfl, -, -, rfl⟩ |
    ⟨event, x, rfl, -, rfl⟩ := P.step_cases h
  · exact s.task_move_of_ne (fun he => hne (congrArg some he.symm)) _ _
  · exact s.task_move_of_ne (fun he => hne (congrArg some he.symm)) _ _
  · rfl

/-- A task that was spawned stays in the table. -/
theorem isSome_task_step {s t : State τ σ π} {e : Event τ γ ι η} (h : P.step s e = some t)
    {tid : τ} (hs : (s.task tid).isSome) : (t.task tid).isSome := by
  by_cases hne : e.tid? = some tid
  · obtain ⟨tid', call, rfl, -, rfl⟩ | ⟨tid', input, p, x, q, rfl, -, -, rfl⟩ |
      ⟨event, x, rfl, -, rfl⟩ := P.step_cases h
    · obtain rfl := Option.some.inj hne
      simp
    · obtain rfl := Option.some.inj hne
      simp
    · cases hne
  · rwa [P.task_step_of_ne h hne]

/-! ## A task on its own -/

/-- A step of one task, the others left out. -/
def alone (a : σ × π) (input : ι) : Option (σ × π) := P.resume input a.1 a.2

/-- A call that nothing interrupts. -/
theorem execAll_alone {s : State τ σ π} {tid : τ} (hfree : s.task tid = none) (call : γ)
    (inputs : List ι) :
    Run.execAll P.step s (.spawn tid call :: inputs.map (.resume tid)) =
      (Run.execAll P.alone (s.shared, P.entry call) inputs).map fun a => s.move tid a.1 a.2 := by
  have hresumes : ∀ x p, Run.execAll P.step (s.move tid x p) (inputs.map (.resume tid)) =
      (Run.execAll P.alone (x, p) inputs).map fun a => s.move tid a.1 a.2 := by
    induction inputs with
    | nil => simp
    | cons input inputs ih =>
      intro x p
      cases hx : P.resume input x p with
      | none => simp [step, alone, hx]
      | some next => simp [step, alone, hx, ih]
  simp [step, hfree, hresumes]

/-! ## Proof outlines -/

/-- The shared state satisfies `I` and every task satisfies `J` at its point. -/
def Annotated (I : List (Event τ γ ι η) → σ → Prop)
    (J : List (Event τ γ ι η) → τ → σ → π → Prop) (es : List (Event τ γ ι η))
    (s : State τ σ π) : Prop :=
  I es s.shared ∧ ∀ tid p, s.task tid = some p → J es tid s.shared p

/-- What has to be shown of an invariant and of assertions, for runs whose steps satisfy `G`. -/
structure Outline (x₀ : σ) (G : State τ σ π → Event τ γ ι η → Prop)
    (I : List (Event τ γ ι η) → σ → Prop) (J : List (Event τ γ ι η) → τ → σ → π → Prop) :
    Prop where
  start : I [] x₀
  spawn : ∀ es s tid call, Run.execAll P.step (.start x₀) es = some s → Annotated I J es s →
    G s (.spawn tid call) →
    I (es ++ [.spawn tid call]) s.shared ∧ J (es ++ [.spawn tid call]) tid s.shared (P.entry call)
  resume : ∀ es s tid input p x q, Run.execAll P.step (.start x₀) es = some s →
    Annotated I J es s → G s (.resume tid input) → s.task tid = some p →
    P.resume input s.shared p = some (x, q) →
    I (es ++ [.resume tid input]) x ∧ J (es ++ [.resume tid input]) tid x q
  external : ∀ es s event x, Run.execAll P.step (.start x₀) es = some s → Annotated I J es s →
    G s (.external event) → P.external event s.shared = some x → I (es ++ [.external event]) x
  /-- A step of another task, or of the surroundings, keeps the assertion of a task. -/
  stable : ∀ es s e t tid p, Run.execAll P.step (.start x₀) es = some s → Annotated I J es s →
    G s e → P.step s e = some t → e.tid? ≠ some tid → s.task tid = some p →
    J es tid s.shared p → J (es ++ [e]) tid t.shared p

/-- A proof outline holds at the end of every run. -/
theorem Outline.run {x₀ : σ} {G : State τ σ π → Event τ γ ι η → Prop}
    {I : List (Event τ γ ι η) → σ → Prop} {J : List (Event τ γ ι η) → τ → σ → π → Prop}
    (h : P.Outline x₀ G I J) {es : List (Event τ γ ι η)} {s : State τ σ π}
    (hrun : Run.execAll P.step (.start x₀) es = some s)
    (hG : Run.EachStep P.step G (.start x₀) es) : Annotated I J es s := by
  refine Run.EachStep.induction P.step (P := Annotated I J) ⟨h.start, ?_⟩ ?_ es s hrun hG
  · intro tid p hp
    cases hp
  · intro es s e t hs hann he hstep
    have others : ∀ tid p, e.tid? ≠ some tid → t.task tid = some p →
        J (es ++ [e]) tid t.shared p := by
      intro tid p hne hp
      rw [P.task_step_of_ne hstep hne] at hp
      exact h.stable es s e t tid p hs hann he hstep hne hp (hann.2 tid p hp)
    obtain ⟨tid, call, rfl, -, rfl⟩ | ⟨tid, input, p, x, q, rfl, hp, hx, rfl⟩ |
      ⟨event, x, rfl, hx, rfl⟩ := P.step_cases hstep
    · obtain ⟨hI, hJ⟩ := h.spawn es s tid call hs hann he
      refine ⟨hI, fun tid' p' hp' => ?_⟩
      by_cases hne : tid' = tid
      · subst hne
        obtain rfl : P.entry call = p' := by simpa using hp'
        exact hJ
      · exact others tid' p' (fun h => hne (Option.some.inj h).symm) hp'
    · obtain ⟨hI, hJ⟩ := h.resume es s tid input p x q hs hann he hp hx
      refine ⟨hI, fun tid' p' hp' => ?_⟩
      by_cases hne : tid' = tid
      · subst hne
        obtain rfl : q = p' := by simpa using hp'
        exact hJ
      · exact others tid' p' (fun h => hne (Option.some.inj h).symm) hp'
    · exact ⟨h.external es s event x hs hann he hx,
        fun tid' p' hp' => others tid' p' (fun h => by cases h) hp'⟩

/-- What the outline says before a step holds at every step of a run. -/
theorem Outline.eachStep {x₀ : σ} {G Q : State τ σ π → Event τ γ ι η → Prop}
    {I : List (Event τ γ ι η) → σ → Prop} {J : List (Event τ γ ι η) → τ → σ → π → Prop}
    (h : P.Outline x₀ G I J) {es : List (Event τ γ ι η)}
    (hG : Run.EachStep P.step G (.start x₀) es)
    (hQ : ∀ es s e, Run.execAll P.step (.start x₀) es = some s → Annotated I J es s → G s e →
      Q s e) : Run.EachStep P.step Q (.start x₀) es := by
  rintro pre e post s rfl hs
  have hpre : Run.EachStep P.step G (.start x₀) pre := fun pre' e' post' s' hes hs' =>
    hG pre' e' (post' ++ e :: post) s' (by simp [hes]) hs'
  exact hQ pre s e hs (h.run P hs hpre) (hG pre e post s rfl hs)

/-! ## The calls of a run -/

end Program

/-- The call that task `tid` was spawned for. -/
def callOf (es : List (Event τ γ ι η)) (tid : τ) : Option γ :=
  es.findSome? fun
    | .spawn tid' call => if tid' = tid then some call else none
    | _ => none

/-- A name in use is not given again. -/
theorem Program.not_mem_spawn_of_isSome (P : Program σ γ ι η π) {s t : State τ σ π}
    {es : List (Event τ γ ι η)} (hrun : Run.execAll P.step s es = some t) {tid : τ}
    (hs : (s.task tid).isSome) (call : γ) : .spawn tid call ∉ es := by
  induction es generalizing s with
  | nil => simp
  | cons e es ih =>
    obtain ⟨u, hu, hrest⟩ := Option.bind_eq_some_iff.mp hrun
    intro hmem
    rcases List.mem_cons.mp hmem with rfl | hmem
    · obtain ⟨p, hp⟩ := Option.isSome_iff_exists.mp hs
      simp [Program.step, hp] at hu
    · exact ih hrest (P.isSome_task_step hu hs) hmem

/-- In a run no name is given to a second task. -/
theorem Program.callOf_of_mem (P : Program σ γ ι η π) {s t : State τ σ π}
    {es : List (Event τ γ ι η)} (hrun : Run.execAll P.step s es = some t) {tid : τ} {call : γ}
    (hmem : .spawn tid call ∈ es) : callOf es tid = some call := by
  induction es generalizing s with
  | nil => cases hmem
  | cons e es ih =>
    obtain ⟨u, hu, hrest⟩ := Option.bind_eq_some_iff.mp hrun
    rcases List.mem_cons.mp hmem with rfl | htail
    · simp [callOf]
    · by_cases hfirst : ∃ call', e = .spawn tid call'
      · -- The name is in use from here on, so it cannot be given again.
        obtain ⟨call', rfl⟩ := hfirst
        have hused : (u.task tid).isSome := by
          obtain ⟨tid', _, he, -, rfl⟩ | ⟨_, _, _, _, _, he, -⟩ | ⟨_, _, he, -⟩ :=
            P.step_cases hu
          · cases he
            simp
          · cases he
          · cases he
        exact (P.not_mem_spawn_of_isSome hrest hused call htail).elim
      · have hskip : callOf (e :: es) tid = callOf es tid := by
          cases e with
          | spawn tid' call' =>
            have hne : tid' ≠ tid := fun he => hfirst ⟨call', by rw [he]⟩
            simp [callOf, hne]
          | resume | external => rfl
        rw [hskip]
        exact ih hrest htail

end StigmergicMesh.Tasks
