import StigmergicMesh.Library.Run

/-!
# Runs seen by a component

A system that contains another one shows it a run of its own: each of its steps is a step of the
component or leaves the component as it is. What holds of the runs of the component then holds of
the system.
-/

namespace StigmergicMesh.Run

variable {σ ε σ' ε' : Type*}

/-- A component of a system: its state, and the event that a step of the system is for it. -/
structure Projection (step : σ → ε → Option σ) (step' : σ' → ε' → Option σ') where
  view : σ → σ'
  label : σ → ε → Option ε'
  visible : ∀ {s e t e'}, step s e = some t → label s e = some e' →
    step' (view s) e' = some (view t)
  hidden : ∀ {s e t}, step s e = some t → label s e = none → view t = view s

namespace Projection

variable {step : σ → ε → Option σ} {step' : σ' → ε' → Option σ'} (p : Projection step step')

/-- The events that the component sees of a run. -/
def trace : σ → List ε → List ε'
  | _, [] => []
  | s, e :: es =>
    match step s e with
    | none => []
    | some t => (p.label s e).toList ++ trace t es

theorem trace_cons {s t : σ} {e : ε} (h : step s e = some t) (es : List ε) :
    p.trace s (e :: es) = (p.label s e).toList ++ p.trace t es := by
  simp only [trace, h]

/-- A step is as many steps of the component as it has labels. -/
theorem execAll_label {s t : σ} {e : ε} (h : step s e = some t) :
    execAll step' (p.view s) (p.label s e).toList = some (p.view t) := by
  cases hlabel : p.label s e with
  | none => simp [p.hidden h hlabel]
  | some e' => simp [p.visible h hlabel]

/-- The component runs through what it sees. -/
theorem execAll_trace {s t : σ} {es : List ε} (h : execAll step s es = some t) :
    execAll step' (p.view s) (p.trace s es) = some (p.view t) := by
  induction es generalizing s with
  | nil =>
    obtain rfl : s = t := by simpa using h
    rfl
  | cons e es ih =>
    obtain ⟨u, hu, hrest⟩ := Option.bind_eq_some_iff.mp h
    rw [p.trace_cons hu, execAll_append, p.execAll_label hu, Option.bind_some]
    exact ih hrest

theorem trace_append {s t : σ} {es : List ε} (h : execAll step s es = some t) (fs : List ε) :
    p.trace s (es ++ fs) = p.trace s es ++ p.trace t fs := by
  induction es generalizing s with
  | nil =>
    obtain rfl : s = t := by simpa using h
    rfl
  | cons e es ih =>
    obtain ⟨u, hu, hrest⟩ := Option.bind_eq_some_iff.mp h
    rw [List.cons_append, p.trace_cons hu, p.trace_cons hu, ih hrest, List.append_assoc]

theorem trace_snoc {s t u : σ} {es : List ε} (h : execAll step s es = some t) {e : ε}
    (hstep : step t e = some u) :
    p.trace s (es ++ [e]) = p.trace s es ++ (p.label t e).toList := by
  rw [p.trace_append h, p.trace_cons hstep]
  exact congrArg _ (List.append_nil _)

/-- What the component sees is the label of a step. -/
theorem exists_of_mem_trace {s t : σ} {es : List ε} (hrun : execAll step s es = some t) {e' : ε'}
    (h : e' ∈ p.trace s es) :
    ∃ pre e post u v, es = pre ++ e :: post ∧ execAll step s pre = some u ∧ step u e = some v ∧
      p.label u e = some e' := by
  induction es generalizing s with
  | nil => simp [trace] at h
  | cons e es ih =>
    obtain ⟨u, hu, hrest⟩ := Option.bind_eq_some_iff.mp hrun
    rw [p.trace_cons hu, List.mem_append, Option.mem_toList] at h
    rcases h with h | h
    · exact ⟨[], e, es, s, u, rfl, rfl, hu, h⟩
    · obtain ⟨pre, e₀, post, v, w, rfl, hpre, hstep, hlabel⟩ := ih hrest h
      exact ⟨e :: pre, e₀, post, v, w, rfl, by simp [hu, hpre], hstep, hlabel⟩

/-- What holds at each step of the system holds at each step that the component sees. -/
theorem eachStep_trace {G : σ → ε → Prop} {G' : σ' → ε' → Prop}
    (hG : ∀ {s e t e'}, G s e → step s e = some t → p.label s e = some e' → G' (p.view s) e')
    {s t : σ} {es : List ε} (hrun : execAll step s es = some t) (h : EachStep step G s es) :
    EachStep step' G' (p.view s) (p.trace s es) := by
  induction es generalizing s with
  | nil => exact eachStep_nil step'
  | cons e es ih =>
    obtain ⟨u, hu, hrest⟩ := Option.bind_eq_some_iff.mp hrun
    obtain ⟨he, hes⟩ := (eachStep_cons step).mp h
    have hlater := ih hrest (hes u hu)
    rw [p.trace_cons hu]
    cases hlabel : p.label s e with
    | none =>
      rw [p.hidden hu hlabel] at hlater
      exact hlater
    | some e' => exact EachStep.cons step' (hG he hu hlabel) (p.visible hu hlabel) hlater

end Projection

end StigmergicMesh.Run
