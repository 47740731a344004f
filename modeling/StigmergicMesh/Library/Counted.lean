import StigmergicMesh.Library.Generator
import StigmergicMesh.Library.Tasks
import Mathlib.Data.Finset.Card

/-!
# Calls that are counted while they run

A counter that every call raises before its `try` and lowers in the `finally`, each under a lock,
whatever the calls do in between. A call that finds the lock taken waits for it, and what is thrown
into it there comes out: at the second lock the counter would stay raised. No statement under the
lock suspends, so nobody ever waits (`Tally`), and the counter is the number of the calls between
the two points.

A call is its body, a generator of which the outputs and the result are functions of the counter,
and the points of the tasks are the stages of a call.
-/

namespace StigmergicMesh.Counted

/-- The counter and the lock. -/
structure Shared where
  count : Int
  locked : Bool

/-- The body of a call, given the counter after the call has raised it. -/
abbrev Body (σ ω ε ρ : Type*) := Int → Gen σ (Int → ω) ε (Int → ρ)

/-- The stages of a call: not started, waiting for the lock to raise the counter, suspended in the
body after an output or at an `await`, waiting for the lock to lower the counter, ended. -/
inductive Stage (σ ω ε ρ : Type*) where
  | created (body : Body σ ω ε ρ)
  | entering (body : Body σ ω ε ρ)
  | inside (shown : Option ω) (rest : Gen σ (Int → ω) ε (Int → ρ))
  | leaving (exit : Exit ε (Int → ρ))
  | ended (exit : Exit ε ρ)

/-- What resumes a call. -/
inductive Signal (ε : Type*) where
  | next
  | throw (x : Thrown ε)

variable {σ ω ε ρ τ : Type*}

namespace Shared

/-- Without a holder the lock is taken at once. -/
def acquire (s : Shared) : Option Shared :=
  if s.locked then none else some { s with locked := true }

def release (s : Shared) : Shared := { s with locked := false }

/-- `async with lock` around an assignment to the counter, or nothing if it has to wait. -/
def locking (s : Shared) (f : Int → Int) : Option Shared :=
  s.acquire.map fun s => { s with count := f s.count }.release

theorem locking_of_unlocked {s : Shared} (h : s.locked = false) (f : Int → Int) :
    s.locking f = some ⟨f s.count, false⟩ := by
  simp [locking, acquire, release, h]

end Shared

/-- The `finally`. -/
def finish (s : Shared) (exit : Exit ε (Int → ρ)) : Shared × Stage σ ω ε ρ :=
  match s.locking (· - 1) with
  | some t => (t, .ended (exit.map fun result => result t.count))
  | none => (s, .leaving exit)

/-- The body up to its next suspension. -/
def settle (s : Shared) : Gen σ (Int → ω) ε (Int → ρ) → Shared × Stage σ ω ε ρ
  | .ends _ exit => finish s exit
  | .suspends out resume throw =>
    (s, .inside (out.map fun o => o s.count) (.suspends out resume throw))

/-- The call from its start. -/
def enter (s : Shared) (body : Body σ ω ε ρ) : Shared × Stage σ ω ε ρ :=
  match s.locking (· + 1) with
  | some t => settle t (body t.count)
  | none => (s, .entering body)

def resume : Signal ε → Shared → Stage σ ω ε ρ → Option (Shared × Stage σ ω ε ρ)
  | .next, s, .created body => some (enter s body)
  | .next, s, .entering body => some (enter s body)
  | .next, s, .inside _ (.suspends _ resume _) => some (settle s resume)
  | .next, s, .leaving exit => some (finish s exit)
  | .throw x, s, .created _ => some (s, .ended (.raised x))
  | .throw x, s, .entering _ => some (s, .ended (.raised x))
  | .throw x, s, .inside _ (.suspends _ _ throw) => some (settle s (throw x))
  | .throw x, s, .leaving _ => some (s, .ended (.raised x))
  | _, _, .inside _ (.ends _ _) => none
  | _, _, .ended _ => none

/-- The calls, spawned with their bodies. -/
def program {γ : Type*} (body : γ → Body σ ω ε ρ) :
    Tasks.Program Shared γ (Signal ε) Empty (Stage σ ω ε ρ) where
  entry := fun call => .created (body call)
  resume := resume
  external := nofun

namespace Stage

/-- The call has raised the counter and not lowered it. -/
def InFlight : Stage σ ω ε ρ → Bool
  | .inside _ _ | .leaving _ => true
  | _ => false

/-- The call waits for the lock. -/
def Waits : Stage σ ω ε ρ → Bool
  | .entering _ | .leaving _ => true
  | _ => false

/-- The call is suspended in its body, or has ended. -/
def Settled : Stage σ ω ε ρ → Prop
  | .inside _ (.suspends _ _ _) | .ended _ => True
  | _ => False

/-- What the call adds to the counter. -/
def weight (p : Stage σ ω ε ρ) : Int := if p.InFlight then 1 else 0

end Stage

/-! ## One step -/

/-- While the lock is free a stage that is left and the counter agree, and nobody starts to wait. -/
structure Balanced (before : Int) (r : Shared × Stage σ ω ε ρ) : Prop where
  unlocked : r.1.locked = false
  count : r.1.count = before + r.2.weight
  waits : r.2.Waits = false

section Step

variable {s : Shared} (hs : s.locked = false)

include hs

theorem finish_balanced (exit : Exit ε (Int → ρ)) :
    Balanced (s.count - 1) (finish s exit : Shared × Stage σ ω ε ρ) := by
  simp only [finish, Shared.locking_of_unlocked hs]
  exact ⟨rfl, by simp [Stage.weight, Stage.InFlight], rfl⟩

theorem settle_balanced (g : Gen σ (Int → ω) ε (Int → ρ)) :
    Balanced (s.count - 1) (settle s g) := by
  cases g with
  | ends _ exit => exact finish_balanced hs exit
  | suspends out resume throw => exact ⟨hs, by simp [settle, Stage.weight, Stage.InFlight], rfl⟩

theorem enter_balanced (body : Body σ ω ε ρ) : Balanced s.count (enter s body) := by
  simp only [enter, Shared.locking_of_unlocked hs]
  simpa using settle_balanced (s := ⟨s.count + 1, false⟩) rfl (body (s.count + 1))

/-- A call that does not wait moves the counter with its stage. -/
theorem resume_balanced {signal : Signal ε} {p : Stage σ ω ε ρ} (hp : p.Waits = false)
    {r : Shared × Stage σ ω ε ρ} (h : resume signal s p = some r) :
    Balanced (s.count - p.weight) r := by
  cases p with
  | created body =>
    cases signal with
    | next =>
      obtain rfl := Option.some.inj h
      simpa [Stage.weight, Stage.InFlight] using enter_balanced hs body
    | throw x =>
      obtain rfl := Option.some.inj h
      exact ⟨hs, by simp [Stage.weight, Stage.InFlight], rfl⟩
  | inside shown rest =>
    cases rest with
    | ends l exit => cases signal <;> cases h
    | suspends out resume throw =>
      cases signal <;> obtain rfl := Option.some.inj h <;>
        simpa [Stage.weight, Stage.InFlight] using settle_balanced hs _
  | entering body | leaving exit => cases hp
  | ended exit => cases signal <;> cases h

/-- A call that does not wait settles. -/
theorem resume_settled {signal : Signal ε} {p : Stage σ ω ε ρ} (hp : p.Waits = false)
    {r : Shared × Stage σ ω ε ρ} (h : resume signal s p = some r) : r.2.Settled := by
  have settled : ∀ {s : Shared}, s.locked = false → ∀ g : Gen σ (Int → ω) ε (Int → ρ),
      (settle s g).2.Settled := by
    intro s hs g
    cases g with
    | ends _ exit => simp [settle, finish, Shared.locking_of_unlocked hs, Stage.Settled]
    | suspends out resume throw => trivial
  cases p with
  | created body =>
    cases signal with
    | next =>
      obtain rfl := Option.some.inj h
      simp only [enter, Shared.locking_of_unlocked hs]
      exact settled rfl _
    | throw x =>
      obtain rfl := Option.some.inj h
      trivial
  | inside shown rest =>
    cases rest with
    | ends l exit => cases signal <;> cases h
    | suspends out resume throw =>
      cases signal <;> obtain rfl := Option.some.inj h <;> exact settled hs _
  | entering body | leaving exit => cases hp
  | ended exit => cases signal <;> cases h

end Step

/-! ## What is shown -/

variable (P : (Int → ω) → Prop) (Q : (Int → ρ) → Prop)

/-- What the call can still output or return is among `P` and `Q`. -/
def Sound : Stage σ ω ε ρ → Prop
  | .created body | .entering body => ∀ n, (body n).Always P Q
  | .inside _ rest => rest.Always P Q
  | .leaving (.returned result) => Q result
  | _ => True

/-- What the stage shows has been computed with the counter at `count`. -/
def Shows (count : Int) : Stage σ ω ε ρ → Prop
  | .inside (some shown) _ => ∃ out, P out ∧ shown = out count
  | .ended (.returned result) => ∃ f, Q f ∧ result = f count
  | _ => True

variable {P Q}

theorem finish_shows (s : Shared) {exit : Exit ε (Int → ρ)}
    (h : ∀ result, exit = .returned result → Q result) :
    Sound P Q (finish s exit : Shared × Stage σ ω ε ρ).2 ∧
      Shows P Q (finish s exit : Shared × Stage σ ω ε ρ).1.count
        (finish s exit : Shared × Stage σ ω ε ρ).2 := by
  unfold finish
  split
  · cases exit with
    | returned result => exact ⟨trivial, result, h result rfl, rfl⟩
    | raised x => exact ⟨trivial, trivial⟩
  · cases exit with
    | returned result => exact ⟨h result rfl, trivial⟩
    | raised x => exact ⟨trivial, trivial⟩

theorem settle_shows (s : Shared) {g : Gen σ (Int → ω) ε (Int → ρ)} (h : g.Always P Q) :
    Sound P Q (settle s g).2 ∧ Shows P Q (settle s g).1.count (settle s g).2 := by
  cases g with
  | ends _ exit =>
    refine finish_shows s ?_
    rintro result rfl
    exact h
  | suspends out resume throw =>
    refine ⟨h, ?_⟩
    cases out with
    | none => trivial
    | some out => exact ⟨out, h.1 out rfl, rfl⟩

theorem enter_shows (s : Shared) {body : Body σ ω ε ρ} (h : ∀ n, (body n).Always P Q) :
    Sound P Q (enter s body).2 ∧ Shows P Q (enter s body).1.count (enter s body).2 := by
  unfold enter
  split
  · exact settle_shows _ (h _)
  · exact ⟨h, trivial⟩

/-- What a call shows after a step has been computed in this step. -/
theorem resume_shows {signal : Signal ε} {s : Shared} {p : Stage σ ω ε ρ} (hp : Sound P Q p)
    {r : Shared × Stage σ ω ε ρ} (h : resume signal s p = some r) :
    Sound P Q r.2 ∧ Shows P Q r.1.count r.2 := by
  cases p with
  | created body | entering body =>
    cases signal <;> obtain rfl := Option.some.inj h
    · exact enter_shows s hp
    · exact ⟨trivial, trivial⟩
  | inside shown rest =>
    cases rest with
    | ends l exit => cases signal <;> cases h
    | suspends out resume throw =>
      cases signal <;> obtain rfl := Option.some.inj h
      · exact settle_shows s hp.2.1
      · exact settle_shows s (hp.2.2 _)
  | leaving exit =>
    cases signal <;> obtain rfl := Option.some.inj h
    · refine finish_shows s ?_
      rintro result rfl
      exact hp
    · exact ⟨trivial, trivial⟩
  | ended exit => cases signal <;> cases h

/-! ## Every interleaving -/

section Runs

variable [DecidableEq τ] {γ : Type*} {body : γ → Body σ ω ε ρ}

/-- The calls in flight are those in `T`, the counter is their number, and nobody waits. -/
structure Tally (s : Tasks.State τ Shared (Stage σ ω ε ρ)) (T : Finset τ) : Prop where
  unlocked : s.shared.locked = false
  count : s.shared.count = T.card
  mem : ∀ tid, tid ∈ T ↔ ∃ p, s.task tid = some p ∧ p.InFlight = true
  waits : ∀ tid p, s.task tid = some p → p.Waits = false

omit [DecidableEq τ] in
theorem tally_start : Tally (.start ⟨0, false⟩ : Tasks.State τ Shared (Stage σ ω ε ρ)) ∅ :=
  ⟨rfl, rfl, by simp [Tasks.State.start], by simp [Tasks.State.start]⟩

/-- The calls in flight once `tid` has come to the stage `q`. -/
def tallied (T : Finset τ) (tid : τ) (q : Stage σ ω ε ρ) : Finset τ :=
  if q.InFlight then insert tid (T.erase tid) else T.erase tid

theorem card_tallied (T : Finset τ) (tid : τ) (q : Stage σ ω ε ρ) :
    ((tallied T tid q).card : Int) = (T.erase tid).card + q.weight := by
  unfold tallied Stage.weight
  split
  · rw [Finset.card_insert_of_notMem (Finset.notMem_erase tid T)]
    rfl
  · simp

@[simp] theorem erase_tallied (T : Finset τ) (tid : τ) (q : Stage σ ω ε ρ) :
    (tallied T tid q).erase tid = T.erase tid := by
  unfold tallied
  split <;> simp

/-- The other calls in flight, from before the step. -/
theorem Tally.card_erase {s : Tasks.State τ Shared (Stage σ ω ε ρ)} {T : Finset τ}
    (h : Tally s T) {tid : τ} {p : Stage σ ω ε ρ} (hp : s.task tid = some p) :
    ((T.erase tid).card : Int) = s.shared.count - p.weight := by
  have hmem : tid ∈ T ↔ p.InFlight = true := by
    rw [h.mem]
    simp [hp]
  rw [h.count, Stage.weight]
  by_cases hflight : p.InFlight = true
  · rw [if_pos hflight, ← Finset.card_erase_add_one (hmem.mpr hflight)]
    push_cast
    omega
  · rw [if_neg hflight, Finset.erase_eq_of_notMem (mt hmem.mp hflight), Int.sub_zero]

/-- A call that moves keeps the tally. -/
theorem Tally.move {s : Tasks.State τ Shared (Stage σ ω ε ρ)} {T : Finset τ} (h : Tally s T)
    {tid : τ} {p : Stage σ ω ε ρ} (hp : s.task tid = some p) {signal : Signal ε}
    {r : Shared × Stage σ ω ε ρ} (hr : resume signal s.shared p = some r) :
    Tally (s.move tid r.1 r.2) (tallied T tid r.2) := by
  have hbalanced := resume_balanced h.unlocked (h.waits tid p hp) hr
  refine ⟨hbalanced.unlocked, ?_, fun tid' => ?_, fun tid' q hq => ?_⟩
  · rw [card_tallied, h.card_erase hp]
    exact hbalanced.count
  · by_cases hne : tid' = tid
    · subst hne
      simp only [Tasks.State.task_move_self, tallied]
      split <;> simp_all
    · have hother : tid' ∈ tallied T tid r.2 ↔ tid' ∈ T := by
        unfold tallied
        split <;> simp [hne]
      rw [hother, h.mem, s.task_move_of_ne hne]
  · by_cases hne : tid' = tid
    · subst hne
      obtain rfl := Option.some.inj ((s.task_move_self ..).symm.trans hq)
      exact hbalanced.waits
    · rw [s.task_move_of_ne hne] at hq
      exact h.waits tid' q hq

/-- A call that is spawned is not in flight. -/
theorem Tally.spawn {s : Tasks.State τ Shared (Stage σ ω ε ρ)} {T : Finset τ} (h : Tally s T)
    {tid : τ} (hfree : s.task tid = none) (b : Body σ ω ε ρ) :
    Tally (s.move tid s.shared (.created b)) T := by
  refine ⟨h.unlocked, h.count, fun tid' => ?_, fun tid' q hq => ?_⟩
  · rw [h.mem]
    by_cases hne : tid' = tid
    · subst hne
      simp [hfree, Stage.InFlight]
    · rw [s.task_move_of_ne hne]
  · by_cases hne : tid' = tid
    · subst hne
      obtain rfl := Option.some.inj ((s.task_move_self ..).symm.trans hq)
      rfl
    · rw [s.task_move_of_ne hne] at hq
      exact h.waits tid' q hq

/-- Every run keeps a tally. -/
theorem exists_tally {es : List (Tasks.Event τ γ (Signal ε) Empty)}
    {s : Tasks.State τ Shared (Stage σ ω ε ρ)}
    (hrun : Run.execAll (program body).step (.start ⟨0, false⟩) es = some s) :
    ∃ T, Tally s T := by
  refine Run.execAll_invariant (program body).step (P := fun s => ∃ T, Tally s T)
    ⟨∅, tally_start⟩ ?_ hrun
  rintro s e t ⟨T, hT⟩ hstep
  obtain ⟨tid, call, rfl, hfree, rfl⟩ | ⟨tid, signal, p, x, q, rfl, hp, hr, rfl⟩ |
    ⟨event, _⟩ := (program body).step_cases hstep
  · exact ⟨T, hT.spawn hfree _⟩
  · exact ⟨_, hT.move hp hr⟩
  · exact event.elim

variable {P : (Int → ω) → Prop} {Q : (Int → ρ) → Prop}

/-- No call ever outputs or returns anything else. -/
theorem sound_run (hbody : ∀ call n, (body call n).Always P Q)
    {es : List (Tasks.Event τ γ (Signal ε) Empty)} {s : Tasks.State τ Shared (Stage σ ω ε ρ)}
    (hrun : Run.execAll (program body).step (.start ⟨0, false⟩) es = some s) :
    ∀ tid p, s.task tid = some p → Sound P Q p := by
  refine Run.execAll_invariant (program body).step
    (P := fun s => ∀ tid p, s.task tid = some p → Sound P Q p) ?_ ?_ hrun
  · intro tid p hp
    cases hp
  intro s e t hs hstep tid' p' hp'
  obtain ⟨tid, call, rfl, hfree, rfl⟩ | ⟨tid, signal, p, x, q, rfl, hp, hr, rfl⟩ |
    ⟨event, _⟩ := (program body).step_cases hstep
  · by_cases hne : tid' = tid
    · subst hne
      obtain rfl := Option.some.inj ((s.task_move_self ..).symm.trans hp')
      exact hbody call
    · rw [s.task_move_of_ne hne] at hp'
      exact hs tid' p' hp'
  · by_cases hne : tid' = tid
    · subst hne
      obtain rfl := Option.some.inj ((s.task_move_self ..).symm.trans hp')
      exact (resume_shows (hs tid' p hp) hr).1
    · rw [s.task_move_of_ne hne] at hp'
      exact hs tid' p' hp'
  · exact event.elim

/-- What a call shows after its step has been computed with the counter at the number of the calls
in flight: the others and, while it is in flight, itself. -/
theorem shows_of_resume (hbody : ∀ call n, (body call n).Always P Q)
    {es : List (Tasks.Event τ γ (Signal ε) Empty)} {tid : τ} {signal : Signal ε}
    {t : Tasks.State τ Shared (Stage σ ω ε ρ)}
    (hrun : Run.execAll (program body).step (.start ⟨0, false⟩) (es ++ [.resume tid signal]) =
      some t) :
    ∃ T q, Tally t T ∧ t.task tid = some q ∧ Shows P Q ((T.erase tid).card + q.weight) q := by
  obtain ⟨s, hs, hstep⟩ := (Run.execAll_snoc _).mp hrun
  obtain ⟨T, hT⟩ := exists_tally hs
  obtain ⟨_, _, he, -⟩ | ⟨tid', signal', p, x, q, he, hp, hr, rfl⟩ | ⟨event, _⟩ :=
    (program body).step_cases hstep
  · cases he
  · cases he
    refine ⟨_, q, hT.move hp hr, s.task_move_self .., ?_⟩
    have hshows := (resume_shows (sound_run hbody hs tid p hp) hr).2
    have hcount := (resume_balanced hT.unlocked (hT.waits tid p hp) hr).count
    rw [← hT.card_erase hp] at hcount
    rw [erase_tallied, ← hcount]
    exact hshows
  · exact event.elim

end Runs

end StigmergicMesh.Counted
