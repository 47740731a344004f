import Mathlib.Data.List.Basic

/-!
# Generators that exceptions can be thrown into

A coroutine or an async generator as the tree of what it can do: it ends, or it is suspended, at an
`await` or with an output at a `yield`, and is then resumed, or an exception is thrown into it. A
statement ends with its locals however it ends, so that a handler finds what has been assigned. The
statements of the language are operations on trees and a generator is written as its source is.

`frames` lists the outputs of a generator that is always resumed, each with what the generator does
if it is closed there, and `frames_tryFinally` is what a `finally` that yields makes of this.
-/

namespace StigmergicMesh

/-- What comes out of a statement or is thrown into a generator: an `Exception`, or one of the two
exceptions that are none. -/
inductive Thrown (ε : Type*) where
  | exception (e : ε)
  | cancelled
  | closed

/-- How a statement ends. -/
inductive Exit (ε α : Type*) where
  | returned (a : α)
  | raised (x : Thrown ε)

def Exit.map {ε α β : Type*} (f : α → β) : Exit ε α → Exit ε β
  | .returned a => .returned (f a)
  | .raised x => .raised x

inductive Gen (σ ω ε α : Type*) where
  | ends (locals : σ) (exit : Exit ε α)
  | suspends (out : Option ω) (resume : Gen σ ω ε α) (throw : Thrown ε → Gen σ ω ε α)

/-- A coroutine outputs nothing; it can be awaited anywhere. -/
abbrev Coroutine (ε α : Type*) := Gen Unit Empty ε α

namespace Gen

variable {σ ω ε α β : Type*}

/-! ## Statements -/

def pure (s : σ) (a : α) : Gen σ ω ε α := .ends s (.returned a)

/-- `raise`. -/
def raise (s : σ) (x : Thrown ε) : Gen σ ω ε α := .ends s (.raised x)

/-- `yield`. -/
def yield (s : σ) (out : ω) : Gen σ ω ε Unit := .suspends (some out) (pure s ()) (raise s)

/-- `await`. -/
def await (s : σ) : Coroutine ε α → Gen σ ω ε α
  | .ends _ exit => .ends s exit
  | .suspends _ resume throw => .suspends none (await s resume) fun x => await s (throw x)

/-- One statement after another. -/
def bind : Gen σ ω ε α → (α → σ → Gen σ ω ε β) → Gen σ ω ε β
  | .ends s (.returned a), f => f a s
  | .ends s (.raised x), _ => .ends s (.raised x)
  | .suspends out resume throw, f => .suspends out (resume.bind f) fun x => (throw x).bind f

/-- `try` with `except Exception`. -/
def tryExcept : Gen σ ω ε α → (ε → σ → Gen σ ω ε α) → Gen σ ω ε α
  | .ends s (.raised (.exception e)), handler => handler e s
  | .ends s exit, _ => .ends s exit
  | .suspends out resume throw, handler =>
    .suspends out (resume.tryExcept handler) fun x => (throw x).tryExcept handler

/-- `try` with `finally`; what the finalizer raises replaces how the body ended. -/
def tryFinally : Gen σ ω ε α → (σ → Gen σ ω ε Unit) → Gen σ ω ε α
  | .ends s exit, finalizer => (finalizer s).bind fun _ s => .ends s exit
  | .suspends out resume throw, finalizer =>
    .suspends out (resume.tryFinally finalizer) fun x => (throw x).tryFinally finalizer

/-! ## Consumers -/

/-- The locals and the exit of a generator that is always resumed. -/
def exit : Gen σ ω ε α → σ × Exit ε α
  | .ends s exit => (s, exit)
  | .suspends _ resume _ => resume.exit

/-- The outputs of a generator that is always resumed, each with what the generator does when
`GeneratorExit` is raised there. -/
def frames : Gen σ ω ε α → List (ω × Gen σ ω ε α)
  | .ends _ _ => []
  | .suspends out resume throw => (out.map fun o => (o, throw .closed)).toList ++ resume.frames

/-- The outputs of a generator that is always resumed. -/
def outputs (g : Gen σ ω ε α) : List ω := g.frames.map Prod.fst

/-- What `GeneratorExit` starts does not yield and lets no other exception out; so `aclose` does not
raise. -/
def ClosesCleanly : Gen σ ω ε α → Prop
  | .ends _ (.returned _) => True
  | .ends _ (.raised x) => x = .closed
  | .suspends none resume _ => resume.ClosesCleanly
  | .suspends (some _) _ _ => False

/-- Closing the generator at its output number `k` does not raise. -/
def ClosesAt (g : Gen σ ω ε α) (k : Nat) : Prop :=
  ∃ f, g.frames[k]? = some f ∧ f.2.ClosesCleanly

/-! ## Generators that are resumed -/

@[simp] theorem outputs_ends (s : σ) (exit : Exit ε α) :
    (Gen.ends s exit : Gen σ ω ε α).outputs = [] := rfl

@[simp] theorem outputs_pure (s : σ) (a : α) : (pure s a : Gen σ ω ε α).outputs = [] := rfl

@[simp] theorem exit_pure (s : σ) (a : α) :
    (pure s a : Gen σ ω ε α).exit = (s, .returned a) := rfl

@[simp] theorem outputs_raise (s : σ) (x : Thrown ε) :
    (raise s x : Gen σ ω ε α).outputs = [] := rfl

@[simp] theorem exit_raise (s : σ) (x : Thrown ε) :
    (raise s x : Gen σ ω ε α).exit = (s, .raised x) := rfl

@[simp] theorem outputs_suspends (out : Option ω) (resume : Gen σ ω ε α)
    (throw : Thrown ε → Gen σ ω ε α) :
    (Gen.suspends out resume throw).outputs = out.toList ++ resume.outputs := by
  cases out <;> rfl

@[simp] theorem outputs_yield (s : σ) (out : ω) :
    (yield s out : Gen σ ω ε Unit).outputs = [out] := rfl

@[simp] theorem exit_yield (s : σ) (out : ω) :
    (yield s out : Gen σ ω ε Unit).exit = (s, .returned ()) := rfl

@[simp] theorem outputs_await (s : σ) (c : Coroutine ε α) :
    (await s c : Gen σ ω ε α).outputs = [] := by
  induction c with
  | ends _ _ => rfl
  | suspends out resume throw ih _ => simpa [await] using ih

@[simp] theorem exit_await (s : σ) (c : Coroutine ε α) :
    (await s c : Gen σ ω ε α).exit = (s, c.exit.2) := by
  induction c with
  | ends _ _ => rfl
  | suspends out resume throw ih _ => exact ih

/-- What follows a statement that is resumed to its end. -/
theorem outputs_bind (g : Gen σ ω ε α) (f : α → σ → Gen σ ω ε β) :
    (g.bind f).outputs = g.outputs ++
      match g.exit with
      | (s, .returned a) => (f a s).outputs
      | (_, .raised _) => [] := by
  induction g with
  | ends s exit => cases exit <;> simp [bind, exit]
  | suspends out resume throw ih _ => simp [bind, ih, exit]

theorem exit_bind (g : Gen σ ω ε α) (f : α → σ → Gen σ ω ε β) :
    (g.bind f).exit =
      match g.exit with
      | (s, .returned a) => (f a s).exit
      | (s, .raised x) => (s, .raised x) := by
  induction g with
  | ends s exit => cases exit <;> rfl
  | suspends out resume throw ih _ => exact ih

/-- A `try` whose body is resumed to its end. -/
theorem outputs_tryExcept (g : Gen σ ω ε α) (handler : ε → σ → Gen σ ω ε α) :
    (g.tryExcept handler).outputs = g.outputs ++
      match g.exit with
      | (s, .raised (.exception e)) => (handler e s).outputs
      | _ => [] := by
  induction g with
  | ends s exit => rcases exit with a | (e | _ | _) <;> simp [tryExcept, exit]
  | suspends out resume throw ih _ => simp [tryExcept, ih, exit]

/-- A `finally` whose statements are resumed to their end. -/
theorem outputs_tryFinally (g : Gen σ ω ε α) (finalizer : σ → Gen σ ω ε Unit) :
    (g.tryFinally finalizer).outputs = g.outputs ++ (finalizer g.exit.1).outputs := by
  induction g with
  | ends s exit =>
    rcases h : (finalizer s).exit with ⟨t, u | x⟩ <;>
      simp [tryFinally, outputs_bind, h, Gen.exit]
  | suspends out resume throw ih _ => simp [tryFinally, ih, exit]

theorem exit_tryFinally (g : Gen σ ω ε α) (finalizer : σ → Gen σ ω ε Unit) :
    (g.tryFinally finalizer).exit =
      match (finalizer g.exit.1).exit with
      | (s, .returned _) => (s, g.exit.2)
      | (s, .raised x) => (s, .raised x) := by
  induction g with
  | ends s exit =>
    rcases h : (finalizer s).exit with ⟨t, u | x⟩ <;> simp [tryFinally, exit_bind, h, Gen.exit]
  | suspends out resume throw ih _ => exact ih

/-! ## What is never output -/

/-- On no path does the generator output or return anything else. -/
def Always (P : ω → Prop) (Q : α → Prop) : Gen σ ω ε α → Prop
  | .ends _ (.returned a) => Q a
  | .ends _ (.raised _) => True
  | .suspends out resume throw =>
    (∀ o ∈ out, P o) ∧ resume.Always P Q ∧ ∀ x, (throw x).Always P Q

section Always

variable {P : ω → Prop} {Q : α → Prop} {R : β → Prop}

theorem always_yield {s : σ} {out : ω} (h : P out) :
    (yield s out : Gen σ ω ε Unit).Always P fun _ => True :=
  ⟨fun _ ho => Option.some.inj ho ▸ h, trivial, fun _ => trivial⟩

theorem always_await (s : σ) (c : Coroutine ε α) :
    (await s c : Gen σ ω ε α).Always P fun _ => True := by
  induction c with
  | ends _ exit => cases exit <;> trivial
  | suspends out resume throw ih ih' => exact ⟨nofun, ih, ih'⟩

theorem always_bind {g : Gen σ ω ε α} {f : α → σ → Gen σ ω ε β} (hg : g.Always P Q)
    (hf : ∀ a s, Q a → (f a s).Always P R) : (g.bind f).Always P R := by
  induction g with
  | ends s exit =>
    cases exit with
    | returned a => exact hf a s hg
    | raised x => trivial
  | suspends out resume throw ih ih' =>
    exact ⟨hg.1, ih hg.2.1, fun x => ih' x (hg.2.2 x)⟩

theorem always_tryExcept {g : Gen σ ω ε α} {handler : ε → σ → Gen σ ω ε α} (hg : g.Always P Q)
    (hh : ∀ e s, (handler e s).Always P Q) : (g.tryExcept handler).Always P Q := by
  induction g with
  | ends s exit =>
    rcases exit with a | (e | _ | _)
    · exact hg
    · exact hh e s
    · trivial
    · trivial
  | suspends out resume throw ih ih' =>
    exact ⟨hg.1, ih hg.2.1, fun x => ih' x (hg.2.2 x)⟩

theorem always_tryFinally {g : Gen σ ω ε α} {finalizer : σ → Gen σ ω ε Unit}
    (hg : g.Always P Q) (hf : ∀ s, (finalizer s).Always P fun _ => True) :
    (g.tryFinally finalizer).Always P Q := by
  induction g with
  | ends s exit => exact always_bind (hf s) fun _ _ _ => by cases exit <;> exact hg
  | suspends out resume throw ih ih' =>
    exact ⟨hg.1, ih hg.2.1, fun x => ih' x (hg.2.2 x)⟩

theorem Always.and {P' : ω → Prop} {Q' : α → Prop} {g : Gen σ ω ε α} (h : g.Always P Q)
    (h' : g.Always P' Q') : g.Always (fun o => P o ∧ P' o) fun a => Q a ∧ Q' a := by
  induction g with
  | ends s exit =>
    cases exit with
    | returned a => exact ⟨h, h'⟩
    | raised x => trivial
  | suspends out resume throw ih ih' =>
    exact ⟨fun o ho => ⟨h.1 o ho, h'.1 o ho⟩, ih h.2.1 h'.2.1,
      fun x => ih' x (h.2.2 x) (h'.2.2 x)⟩

end Always

/-! ## Without locals -/

/-- The generator as it looks from outside. -/
def forget : Gen σ ω ε α → Gen Unit ω ε α
  | .ends _ exit => .ends () exit
  | .suspends out resume throw => .suspends out resume.forget fun x => (throw x).forget

theorem Always.forget {P : ω → Prop} {Q : α → Prop} {g : Gen σ ω ε α} (h : g.Always P Q) :
    g.forget.Always P Q := by
  induction g with
  | ends s exit => cases exit <;> exact h
  | suspends out resume throw ih ih' => exact ⟨h.1, ih h.2.1, fun x => ih' x (h.2.2 x)⟩

/-! ## A `finally` that yields -/

variable (out : σ → ω)

/-- A generator that a yielding `finally` follows does not close cleanly: either it yields itself or
the finalizer does. -/
theorem not_closesCleanly_tryFinally (g : Gen σ ω ε α) :
    ¬(g.tryFinally fun s => yield s (out s)).ClosesCleanly := by
  induction g with
  | ends s exit => exact id
  | suspends output resume throw ih _ =>
    cases output with
    | none => exact ih
    | some o => exact id

/-- The frames of the body, each followed by the finalizer if it is closed there, and the frame of
the finalizer. -/
theorem frames_tryFinally (g : Gen σ ω ε α) :
    (g.tryFinally fun s => yield s (out s)).frames =
      g.frames.map (fun f => (f.1, f.2.tryFinally fun s => yield s (out s))) ++
        [(out g.exit.1, raise g.exit.1 .closed)] := by
  induction g with
  | ends s exit => rfl
  | suspends output resume throw ih _ => cases output <;> simp [tryFinally, frames, exit, ih]

@[simp] theorem outputs_tryFinally_yield (g : Gen σ ω ε α) :
    (g.tryFinally fun s => yield s (out s)).outputs = g.outputs ++ [out g.exit.1] := by
  simp [outputs, frames_tryFinally]

/-- With a `finally` that yields, a generator closes cleanly at the frame of the finalizer only. -/
theorem closesAt_tryFinally_iff (g : Gen σ ω ε α) (k : Nat) :
    (g.tryFinally fun s => yield s (out s)).ClosesAt k ↔ k = g.outputs.length := by
  have hlength : g.outputs.length = g.frames.length := List.length_map ..
  simp only [ClosesAt, frames_tryFinally, hlength]
  constructor
  · rintro ⟨f, hf, hclean⟩
    rcases Nat.lt_trichotomy k g.frames.length with hlt | rfl | hgt
    · -- Inside the body the finalizer is still to come.
      rw [List.getElem?_append_left (by simpa using hlt), List.getElem?_map,
        Option.map_eq_some_iff] at hf
      obtain ⟨f', -, rfl⟩ := hf
      exact (not_closesCleanly_tryFinally out f'.2 hclean).elim
    · rfl
    · rw [List.getElem?_eq_none (by simp; omega)] at hf
      cases hf
  · rintro rfl
    exact ⟨(out g.exit.1, raise g.exit.1 .closed), by simp, rfl⟩

end Gen

end StigmergicMesh
