import StigmergicMesh.Library.Run

/-!
# Operations that read first and write later

A shared store is accessed by two kinds of operations: atomic ones, and split ones that read in
one access and write, in a later access, what they computed from the reading. Any number of
calls are in progress at once, each named by a number.

A write is current when it does what it would have done with a fresh reading. In a run whose
writes are all current the store is, after every access, the result of the completed operations
executed one after the other in the order in which they completed (`store_eq_serial`).
-/

namespace StigmergicMesh.Commit

/-- What the operations do to a store `σ`: atomic operations `α`, and split operations `β` with
readings `ρ`. -/
structure Protocol (σ ρ α β : Type*) where
  atomic : α → σ → σ
  read : β → σ → ρ
  write : β → ρ → σ → σ

inductive Op (α β : Type*) where
  | atomic (a : α)
  | split (b : β)

/-- One access to the store. -/
inductive Event (α β : Type*) where
  | atomic (a : α)
  | read (call : Nat) (b : β)
  | write (call : Nat)

/-- The atomic operation, of an operation or of an event. -/
def Op.atomic? {α β : Type*} : Op α β → Option α
  | .atomic a => some a
  | .split _ => none

def Event.atomic? {α β : Type*} : Event α β → Option α
  | .atomic a => some a
  | _ => none

/-- The store, the calls between their two accesses, and the completed operations, oldest
first. -/
structure State (σ ρ α β : Type*) where
  store : σ
  pending : Nat → Option (β × ρ)
  done : List (Op α β)

/-- No call in progress, nothing done yet. -/
def State.start {σ ρ α β : Type*} (s : σ) : State σ ρ α β := ⟨s, fun _ => none, []⟩

namespace Protocol

variable {σ ρ α β : Type*} (P : Protocol σ ρ α β)

/-- An operation executed with nothing in between. -/
def apply (s : σ) : Op α β → σ
  | .atomic a => P.atomic a s
  | .split b => P.write b (P.read b s) s

/-- Complete operations one after the other. -/
def serial (s : σ) (ops : List (Op α β)) : σ := ops.foldl P.apply s

/-- One access; a call number in use starts no second call, an unused one has nothing to write. -/
def step (s : State σ ρ α β) : Event α β → Option (State σ ρ α β)
  | .atomic a => some { s with store := P.atomic a s.store, done := s.done ++ [.atomic a] }
  | .read call b =>
    match s.pending call with
    | some _ => none
    | none =>
      some { s with pending := Function.update s.pending call (some (b, P.read b s.store)) }
  | .write call =>
    match s.pending call with
    | none => none
    | some (b, r) =>
      some
        { store := P.write b r s.store
          pending := Function.update s.pending call none
          done := s.done ++ [.split b] }

/-- A write does what it would do with a fresh reading. -/
def Current (s : State σ ρ α β) : Event α β → Prop
  | .write call => ∀ b r, s.pending call = some (b, r) →
    P.write b r s.store = P.write b (P.read b s.store) s.store
  | _ => True

theorem serial_snoc (s : σ) (ops : List (Op α β)) (op : Op α β) :
    P.serial s (ops ++ [op]) = P.apply (P.serial s ops) op := by
  simp [serial, List.foldl_append]

/-- What an accepted access does. -/
theorem step_cases {s t : State σ ρ α β} {e : Event α β} (h : P.step s e = some t) :
    (∃ a, e = .atomic a ∧
      t = { s with store := P.atomic a s.store, done := s.done ++ [.atomic a] }) ∨
    (∃ call b, e = .read call b ∧ s.pending call = none ∧
      t = { s with pending := Function.update s.pending call (some (b, P.read b s.store)) }) ∨
    ∃ call b r, e = .write call ∧ s.pending call = some (b, r) ∧
      t = ⟨P.write b r s.store, Function.update s.pending call none, s.done ++ [.split b]⟩ := by
  cases e with
  | atomic a => exact .inl ⟨a, rfl, (Option.some.inj h).symm⟩
  | read call b =>
    cases hp : s.pending call with
    | some p => simp [step, hp] at h
    | none => exact .inr (.inl ⟨call, b, rfl, hp, by simpa [step, hp] using h.symm⟩)
  | write call =>
    cases hp : s.pending call with
    | none => simp [step, hp] at h
    | some p => exact .inr (.inr ⟨call, p.1, p.2, rfl, hp, by simpa [step, hp] using h.symm⟩)

/-- A current access leaves the serial result of the operations completed by then. -/
theorem step_serial {s₀ : σ} {s t : State σ ρ α β} {e : Event α β}
    (h : s.store = P.serial s₀ s.done) (hcur : P.Current s e) (hstep : P.step s e = some t) :
    t.store = P.serial s₀ t.done := by
  obtain ⟨a, rfl, rfl⟩ | ⟨call, b, rfl, -, rfl⟩ | ⟨call, b, r, rfl, hp, rfl⟩ := P.step_cases hstep
  · simp [serial_snoc, apply, h]
  · exact h
  · simp only [serial_snoc, apply, ← h]
    exact hcur b r hp

theorem store_eq_serial {s₀ : σ} {es : List (Event α β)} {s : State σ ρ α β}
    (hrun : Run.execAll P.step (State.start s₀) es = some s)
    (hcur : Run.EachStep P.step P.Current (State.start s₀) es) :
    s.store = P.serial s₀ s.done :=
  Run.EachStep.induction P.step (P := fun _ s => s.store = P.serial s₀ s.done) rfl
    (fun _ _ _ _ _ ih hG he => P.step_serial ih hG he) es s hrun hcur

/-- The atomic operations of a run have all completed, in the order of the run. -/
theorem done_atomic {s₀ : σ} {es : List (Event α β)} {s : State σ ρ α β}
    (hrun : Run.execAll P.step (State.start s₀) es = some s) :
    s.done.filterMap Op.atomic? = es.filterMap Event.atomic? := by
  refine Run.execAll_induction P.step
    (P := fun es s => s.done.filterMap Op.atomic? = es.filterMap Event.atomic?) rfl ?_ es s hrun
  intro es s e t _ ih hstep
  rw [List.filterMap_append, ← ih]
  obtain ⟨a, rfl, rfl⟩ | ⟨call, b, rfl, -, rfl⟩ | ⟨call, b, r, rfl, -, rfl⟩ := P.step_cases hstep
  · exact List.filterMap_append
  · exact (List.append_nil _).symm
  · exact List.filterMap_append

/-- An invariant of the readings held by calls in progress. -/
theorem pending_invariant {Q : β → ρ → Prop} (hread : ∀ b s, Q b (P.read b s)) {s₀ : σ}
    {es : List (Event α β)} {s : State σ ρ α β}
    (hrun : Run.execAll P.step (State.start s₀) es = some s) :
    ∀ call b r, s.pending call = some (b, r) → Q b r := by
  refine Run.execAll_invariant P.step
    (P := fun s => ∀ call b r, s.pending call = some (b, r) → Q b r)
    (by simp [State.start]) (fun s e t ih hstep => ?_) hrun
  have update : ∀ (call : Nat) (v : Option (β × ρ)), (∀ b r, v = some (b, r) → Q b r) →
      ∀ c b r, Function.update s.pending call v c = some (b, r) → Q b r := by
    intro call v hv c b r hc
    by_cases h : c = call
    · subst h; exact hv b r (by simpa using hc)
    · exact ih c b r (by simpa [h] using hc)
  obtain ⟨a, rfl, rfl⟩ | ⟨call, b, rfl, -, rfl⟩ | ⟨call, b, r, rfl, -, rfl⟩ := P.step_cases hstep
  · exact ih
  · exact update call _ (by rintro _ _ ⟨⟩; exact hread b s.store)
  · exact update call none (by simp)

end Protocol

end StigmergicMesh.Commit
