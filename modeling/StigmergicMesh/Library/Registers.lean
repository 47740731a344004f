import StigmergicMesh.Library.Run
import Mathlib.Order.Basic

/-!
# Registers that keep the last write

A system whose states hold a register for every key, such that a step that writes a key leaves the
written value there and a step that does not leaves the key alone. Along a run the values of the
registers never go back exactly if the writes come in order and the first of each key is not below
what the register held.
-/

namespace StigmergicMesh.Run

variable {σ ε κ V : Type*} (step : σ → ε → Option σ) (read : σ → κ → Option V)
  (write : σ → ε → κ → Option V)

/-- In states that satisfy `P` the events that satisfy `A` lead to such states and keep the last
write. -/
def KeepsLastWrite (P : σ → Prop) (A : ε → Prop) : Prop :=
  ∀ s e t, P s → A e → step s e = some t →
    P t ∧ ∀ k, read t k = (write s e k).or (read s k)

/-- The writes of a run in their order. -/
def writesOf (s : σ) : List ε → List (κ → Option V)
  | [] => []
  | e :: es => write s e :: ((step s e).map (fun t => writesOf t es)).getD []

section Order

variable [Preorder V]

/-- No register goes back in the step. -/
def NeverBack (s : σ) (e : ε) : Prop :=
  ∀ t, step s e = some t → ∀ k a, read s k = some a → ∃ b, read t k = some b ∧ a ≤ b

/-- The value of `w'` for a key is not below that of `w`. -/
def NotBelow (w w' : κ → Option V) : Prop := ∀ k a b, w k = some a → w' k = some b → a ≤ b

/-- The writes come in order, after what the registers hold at the start. -/
def InOrder (s : σ) (es : List ε) : Prop :=
  (∀ w ∈ writesOf step write s es, NotBelow (read s) w) ∧
    (writesOf step write s es).Pairwise NotBelow

variable {step read write} {P : σ → Prop} {A : ε → Prop}

theorem KeepsLastWrite.neverBack_iff (h : KeepsLastWrite step read write P A) {s t : σ} {e : ε}
    (hs : P s) (he : A e) (ht : step s e = some t) :
    NeverBack step read s e ↔ NotBelow (read s) (write s e) := by
  obtain ⟨-, hread⟩ := h s e t hs he ht
  constructor
  · intro hback k a b ha hb
    obtain ⟨c, hc, hle⟩ := hback t ht k a ha
    rw [hread, hb, Option.some_or] at hc
    exact (Option.some.inj hc) ▸ hle
  · intro hbelow u hu k a ha
    obtain rfl : t = u := Option.some.inj (ht.symm.trans hu)
    rw [hread]
    cases hw : write s e k with
    | none => exact ⟨a, ha, le_rfl⟩
    | some b => exact ⟨b, rfl, hbelow k a b ha hw⟩

/-- After a write that is not below what the registers held, a later write is not below them
exactly if it is not below either. -/
theorem KeepsLastWrite.notBelow_iff (h : KeepsLastWrite step read write P A) {s t : σ} {e : ε}
    (hs : P s) (he : A e) (ht : step s e = some t) (hfirst : NotBelow (read s) (write s e))
    (w : κ → Option V) :
    NotBelow (read t) w ↔ NotBelow (read s) w ∧ NotBelow (write s e) w := by
  obtain ⟨-, hread⟩ := h s e t hs he ht
  constructor
  · intro hw
    refine ⟨fun k a b ha hb => ?_, fun k a b ha hb => hw k a b (by rw [hread, ha]; rfl) hb⟩
    cases hc : write s e k with
    | none => exact hw k a b (by rw [hread, hc, ha]; rfl) hb
    | some c => exact (hfirst k a c ha hc).trans (hw k c b (by rw [hread, hc]; rfl) hb)
  · rintro ⟨hold, hnew⟩ k a b ha hb
    rw [hread] at ha
    cases hc : write s e k with
    | none => exact hold k a b (by simpa [hc] using ha) hb
    | some c => exact hnew k a b (by simpa [hc] using ha) hb

/-- Along a run no register goes back exactly if the writes come in order. -/
theorem KeepsLastWrite.eachStep_neverBack_iff (h : KeepsLastWrite step read write P A) {s t : σ}
    {es : List ε} (hs : P s) (hes : ∀ e ∈ es, A e) (hrun : execAll step s es = some t) :
    EachStep step (NeverBack step read) s es ↔ InOrder step read write s es := by
  induction es generalizing s with
  | nil => simp [InOrder, writesOf]
  | cons e es ih =>
    obtain ⟨u, hu, hrest⟩ := Option.bind_eq_some_iff.mp hrun
    have he := hes e List.mem_cons_self
    have hlater := ih (h s e u hs he hu).1 (fun e' h' => hes e' (List.mem_cons_of_mem e h')) hrest
    rw [eachStep_cons, h.neverBack_iff hs he hu]
    simp only [hu, Option.some.injEq, forall_eq', hlater, InOrder, writesOf, Option.map_some,
      Option.getD_some, List.forall_mem_cons, List.pairwise_cons]
    constructor
    · rintro ⟨hfirst, hafter, hpairs⟩
      have hsplit := fun w hw => (h.notBelow_iff hs he hu hfirst w).mp (hafter w hw)
      exact ⟨⟨hfirst, fun w hw => (hsplit w hw).1⟩, fun w hw => (hsplit w hw).2, hpairs⟩
    · rintro ⟨⟨hfirst, hold⟩, hnew, hpairs⟩
      exact ⟨hfirst, fun w hw => (h.notBelow_iff hs he hu hfirst w).mpr ⟨hold w hw, hnew w hw⟩,
        hpairs⟩

omit [Preorder V] in
theorem KeepsLastWrite.execAll (h : KeepsLastWrite step read write P A) {s t : σ} {es : List ε}
    (hs : P s) (hes : ∀ e ∈ es, A e) (hrun : Run.execAll step s es = some t) : P t := by
  induction es generalizing s with
  | nil => exact Option.some.inj hrun ▸ hs
  | cons e es ih =>
    obtain ⟨u, hu, hrest⟩ := Option.bind_eq_some_iff.mp hrun
    exact ih (h s e u hs (hes e List.mem_cons_self) hu).1
      (fun e' h' => hes e' (List.mem_cons_of_mem e h')) hrest

omit [Preorder V] in
/-- What holds of each step of a run holds of each step of a stretch of it. -/
theorem EachStep.middle {G : σ → ε → Prop} {s t : σ} {pre mid post : List ε}
    (h : EachStep step G s (pre ++ mid ++ post)) (hpre : Run.execAll step s pre = some t) :
    EachStep step G t mid := by
  rintro pre' e post' u rfl hu
  refine h (pre ++ pre') e (post' ++ post) u (by simp) ?_
  rw [execAll_append, hpre]
  exact hu

/-- A run that never goes back ends above where it started. -/
theorem EachStep.read_le {s t : σ} {es : List ε} (h : EachStep step (NeverBack step read) s es)
    (hrun : Run.execAll step s es = some t) {k : κ} {a : V} (ha : read s k = some a) :
    ∃ b, read t k = some b ∧ a ≤ b := by
  induction es generalizing s a with
  | nil => exact ⟨a, Option.some.inj hrun ▸ ha, le_rfl⟩
  | cons e es ih =>
    obtain ⟨u, hu, hrest⟩ := Option.bind_eq_some_iff.mp hrun
    obtain ⟨hfirst, hlater⟩ := (eachStep_cons step).mp h
    obtain ⟨b, hb, hab⟩ := hfirst u hu k a ha
    obtain ⟨c, hc, hbc⟩ := ih (hlater u hu) hrest hb
    exact ⟨c, hc, hab.trans hbc⟩

end Order

end StigmergicMesh.Run
