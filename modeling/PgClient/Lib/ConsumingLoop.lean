import Mathlib.Data.Sum.Basic

/-!
# Loops that use something up

`while (1) { … }` where every turn either goes on with a smaller state or
leaves with a result. A `ConsumingLoop` carries the proof that its turns
consume, so that `run` needs no fuel. The rules are the two unfoldings, the
induction `run_induct`, the invariant rule `run_inv` and the simulation rule `run_sim`.
-/

/-- A loop body with a measure that every turn decreases. -/
structure ConsumingLoop (σ β : Type*) where
  turn : σ → σ ⊕ β
  size : σ → Nat
  consumes : ∀ {s s' : σ}, turn s = .inl s' → size s' < size s

namespace ConsumingLoop

variable {σ τ β γ : Type*}

/-- The result of the loop. -/
def run (L : ConsumingLoop σ β) (s : σ) : β :=
  match _h : L.turn s with
  | .inl s' => L.run s'
  | .inr b => b
termination_by L.size s
decreasing_by exact L.consumes _h

/-- A turn that goes on leaves the rest to the next one. -/
theorem run_of_inl {L : ConsumingLoop σ β} {s s' : σ} (h : L.turn s = .inl s') :
    L.run s = L.run s' := by
  rw [run]
  split
  · next t ht => rw [Sum.inl.inj (ht.symm.trans h)]
  · next b hb => exact absurd (hb.symm.trans h) (by simp)

/-- A turn with a result ends the loop. -/
theorem run_of_inr {L : ConsumingLoop σ β} {s : σ} {b : β} (h : L.turn s = .inr b) :
    L.run s = b := by
  rw [run]
  split
  · next t ht => exact absurd (ht.symm.trans h) (by simp)
  · next b' hb => exact Sum.inr.inj (hb.symm.trans h)

/-- Induction along the turns of a loop. -/
theorem run_induct {motive : σ → Prop} (L : ConsumingLoop σ β)
    (step : ∀ s, (∀ s', L.turn s = .inl s' → motive s') → motive s) (s : σ) : motive s :=
  step s fun s' _ => run_induct L step s'
termination_by L.size s
decreasing_by exact L.consumes ‹_›

/-- The result of a loop whose turns keep an invariant. -/
theorem run_inv {L : ConsumingLoop σ β} {Inv : σ → Prop} {Q : β → Prop}
    (hgo : ∀ {s s'}, Inv s → L.turn s = .inl s' → Inv s')
    (hstop : ∀ {s b}, Inv s → L.turn s = .inr b → Q b) {s : σ} (h : Inv s) : Q (L.run s) := by
  induction s using L.run_induct with
  | step s ih =>
    cases hs : L.turn s with
    | inl s' =>
      rw [run_of_inl hs]
      exact ih s' hs (hgo h hs)
    | inr b =>
      rw [run_of_inr hs]
      exact hstop h hs

/-- Loops whose turns simulate each other have related results. -/
theorem run_sim {L : ConsumingLoop σ β} {M : ConsumingLoop τ γ} {R : σ → τ → Prop}
    {Q : β → γ → Prop} (hturn : ∀ {s t}, R s t → Sum.LiftRel R Q (L.turn s) (M.turn t))
    {s : σ} {t : τ} (hR : R s t) : Q (L.run s) (M.run t) := by
  induction s using L.run_induct generalizing t with
  | step s ih =>
    -- both loops go on, or both stop
    have h := hturn hR
    cases hs : L.turn s with
    | inl s' =>
      cases ht : M.turn t with
      | inl t' =>
        rw [hs, ht, Sum.liftRel_inl_inl] at h
        rw [run_of_inl hs, run_of_inl ht]
        exact ih s' hs h
      | inr c =>
        rw [hs, ht] at h
        exact absurd h Sum.not_liftRel_inl_inr
    | inr b =>
      cases ht : M.turn t with
      | inl t' =>
        rw [hs, ht] at h
        exact absurd h Sum.not_liftRel_inr_inl
      | inr c =>
        rw [hs, ht, Sum.liftRel_inr_inr] at h
        rw [run_of_inr hs, run_of_inr ht]
        exact h

end ConsumingLoop
