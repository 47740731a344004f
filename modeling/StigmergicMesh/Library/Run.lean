import Mathlib.Data.List.Induction

/-!
# Runs of guarded step functions

A system is a step function `σ → ε → Option σ`: an event is either refused or moves the state.
`execAll` executes a list of events; `execAll_induction` is the induction every safety proof
uses, one event added at the end of the run at a time. `EachStep` says that a relation between
a state and the event taken in it holds along a whole run. `execAll_filter` is the unwinding rule:
events that leave a relation to a second run untouched can be left out of the second run.
-/

namespace StigmergicMesh.Run

variable {σ ε : Type*} (step : σ → ε → Option σ)

/-- Execute the events in order; `none` once one of them is refused. -/
def execAll (s : σ) (es : List ε) : Option σ := es.foldlM step s

@[simp] theorem execAll_nil (s : σ) : execAll step s [] = some s := rfl

@[simp] theorem execAll_cons (s : σ) (e : ε) (es : List ε) :
    execAll step s (e :: es) = (step s e).bind (fun t => execAll step t es) := rfl

theorem execAll_append (s : σ) (es fs : List ε) :
    execAll step s (es ++ fs) = (execAll step s es).bind (fun t => execAll step t fs) :=
  List.foldlM_append ..

theorem execAll_snoc {s t : σ} {es : List ε} {e : ε} :
    execAll step s (es ++ [e]) = some t ↔
      ∃ u, execAll step s es = some u ∧ step u e = some t := by
  rw [execAll_append]
  cases execAll step s es with
  | none => simp
  | some u => simp

/-- A relation between the events so far and the state reached holds after every run, if it
holds at the start and one more event keeps it. -/
theorem execAll_induction {s₀ : σ} {P : List ε → σ → Prop} (h₀ : P [] s₀)
    (hstep : ∀ es s e t, execAll step s₀ es = some s → P es s → step s e = some t →
      P (es ++ [e]) t) :
    ∀ es s, execAll step s₀ es = some s → P es s := by
  intro es
  induction es using List.reverseRecOn with
  | nil =>
    intro s hs
    obtain rfl : s₀ = s := by simpa using hs
    exact h₀
  | append_singleton es e ih =>
    intro t ht
    obtain ⟨s, hs, he⟩ := (execAll_snoc step).mp ht
    exact hstep es s e t hs (ih s hs) he

/-- A property of states kept by every step holds at the end of every run. -/
theorem execAll_invariant {P : σ → Prop} {s₀ : σ} (h₀ : P s₀)
    (hstep : ∀ s e t, P s → step s e = some t → P t) {es : List ε} {s : σ}
    (h : execAll step s₀ es = some s) : P s :=
  execAll_induction step (P := fun _ s => P s) h₀ (fun _ s e t _ hs he => hstep s e t hs he) es s h

/-- `G` relates every event of the run to the state in which it is taken. -/
def EachStep (G : σ → ε → Prop) (s₀ : σ) (es : List ε) : Prop :=
  ∀ pre e post s, es = pre ++ e :: post → execAll step s₀ pre = some s → G s e

theorem EachStep.init {G : σ → ε → Prop} {s₀ : σ} {es : List ε} {e : ε}
    (h : EachStep step G s₀ (es ++ [e])) : EachStep step G s₀ es := by
  intro pre e' post s hes hs
  exact h pre e' (post ++ [e]) s (by simp [hes]) hs

theorem EachStep.last {G : σ → ε → Prop} {s₀ s : σ} {es : List ε} {e : ε}
    (h : EachStep step G s₀ (es ++ [e])) (hs : execAll step s₀ es = some s) : G s e :=
  h es e [] s rfl hs

@[simp] theorem eachStep_nil {G : σ → ε → Prop} {s₀ : σ} : EachStep step G s₀ [] := by
  intro pre e post s hes
  simp at hes

theorem eachStep_cons {G : σ → ε → Prop} {s₀ : σ} {e : ε} {es : List ε} :
    EachStep step G s₀ (e :: es) ↔
      G s₀ e ∧ ∀ t, step s₀ e = some t → EachStep step G t es := by
  constructor
  · intro h
    refine ⟨h [] e es s₀ rfl rfl, fun t ht pre e' post s hes hs => ?_⟩
    exact h (e :: pre) e' post s (by simp [hes]) (by simp [ht, hs])
  · rintro ⟨h₀, h⟩ pre e' post s hes hs
    cases pre with
    | nil =>
      obtain ⟨rfl, rfl⟩ : e = e' ∧ es = post := by simpa using hes
      obtain rfl : s₀ = s := by simpa using hs
      exact h₀
    | cons p pre =>
      obtain ⟨rfl, rfl⟩ : e = p ∧ es = pre ++ e' :: post := by simpa using hes
      obtain ⟨t, ht, hts⟩ := Option.bind_eq_some_iff.mp hs
      exact h t ht pre e' post s rfl hts

/-- One step and the rest of the run. -/
theorem EachStep.cons {G : σ → ε → Prop} {s₀ t : σ} {e : ε} {es : List ε} (he : G s₀ e)
    (ht : step s₀ e = some t) (h : EachStep step G t es) : EachStep step G s₀ (e :: es) := by
  refine (eachStep_cons step).mpr ⟨he, fun u hu => ?_⟩
  obtain rfl : t = u := Option.some.inj (ht.symm.trans hu)
  exact h

/-- Relations that agree in every state reached agree along the run. -/
theorem EachStep.congr {G H : σ → ε → Prop} {s₀ : σ} {es : List ε}
    (hGH : ∀ pre e post s, es = pre ++ e :: post → execAll step s₀ pre = some s →
      (G s e ↔ H s e)) :
    EachStep step G s₀ es ↔ EachStep step H s₀ es := by
  constructor
  · intro h pre e post s hes hs
    exact (hGH pre e post s hes hs).mp (h pre e post s hes hs)
  · intro h pre e post s hes hs
    exact (hGH pre e post s hes hs).mpr (h pre e post s hes hs)

/-- The induction along runs all of whose steps satisfy `G`. -/
theorem EachStep.induction {G : σ → ε → Prop} {s₀ : σ} {P : List ε → σ → Prop} (h₀ : P [] s₀)
    (hstep : ∀ es s e t, execAll step s₀ es = some s → P es s → G s e → step s e = some t →
      P (es ++ [e]) t) :
    ∀ es s, execAll step s₀ es = some s → EachStep step G s₀ es → P es s :=
  execAll_induction step (P := fun es s => EachStep step G s₀ es → P es s) (fun _ => h₀)
    (fun es s e t hs ih he hG => hstep es s e t hs (ih hG.init) (hG.last step hs) he)

/-- Check a relation along a run. -/
def checkEach (g : σ → ε → Bool) : σ → List ε → Bool
  | _, [] => true
  | s, e :: es =>
    g s e && match step s e with
      | none => true
      | some t => checkEach g t es

theorem eachStep_of_checkEach {g : σ → ε → Bool} {s : σ} {es : List ε}
    (h : checkEach step g s es = true) : EachStep step (fun s e => g s e = true) s es := by
  induction es generalizing s with
  | nil => exact eachStep_nil step
  | cons e es ih =>
    simp only [checkEach, Bool.and_eq_true] at h
    refine (eachStep_cons step).mpr ⟨h.1, fun t ht => ih ?_⟩
    simpa [ht] using h.2

theorem eachStep_of_decide {G : σ → ε → Prop} [∀ s e, Decidable (G s e)] {s : σ} {es : List ε}
    (h : checkEach step (fun s e => decide (G s e)) s es = true) : EachStep step G s es :=
  fun pre e post t hes ht => of_decide_eq_true (eachStep_of_checkEach step h pre e post t hes ht)

/-- No event of a run that comes to its end is refused. -/
theorem eachStep_isSome {s t : σ} {es : List ε} (h : execAll step s es = some t) :
    EachStep step (fun s e => (step s e).isSome) s es := by
  rintro pre e post u rfl hu
  rw [execAll_append, hu, Option.bind_some, execAll_cons] at h
  obtain ⟨v, hv, -⟩ := Option.bind_eq_some_iff.mp h
  exact Option.isSome_of_eq_some hv

/-- Unwinding: if related states answer a selected event alike, and an event that is not selected
keeps them related, the selected events of a run make a run that ends related. -/
theorem execAll_filter (p : ε → Bool) {R : σ → σ → Prop} {es : List ε}
    (selected : ∀ e ∈ es, p e = true → ∀ s s' t, R s t → step s e = some s' →
      ∃ t', step t e = some t' ∧ R s' t')
    (hidden : ∀ e ∈ es, p e = false → ∀ s s' t, R s t → step s e = some s' → R s' t)
    {s s' t : σ} (hR : R s t) (hrun : execAll step s es = some s') :
    ∃ t', execAll step t (es.filter p) = some t' ∧ R s' t' := by
  induction es generalizing s t with
  | nil =>
    obtain rfl : s = s' := by simpa using hrun
    exact ⟨t, rfl, hR⟩
  | cons e es ih =>
    obtain ⟨u, hu, hrest⟩ := Option.bind_eq_some_iff.mp hrun
    have ih := fun {s t} => @ih (fun e' h' => selected e' (List.mem_cons_of_mem e h'))
      (fun e' h' => hidden e' (List.mem_cons_of_mem e h')) s t
    cases hp : p e with
    | true =>
      obtain ⟨v, hv, hRv⟩ := selected e List.mem_cons_self hp s u t hR hu
      obtain ⟨t', ht', hR'⟩ := ih hRv hrest
      exact ⟨t', by simp [hp, hv, ht'], hR'⟩
    | false =>
      obtain ⟨t', ht', hR'⟩ := ih (hidden e List.mem_cons_self hp s u t hR hu) hrest
      exact ⟨t', by simp [hp, ht'], hR'⟩

end StigmergicMesh.Run
