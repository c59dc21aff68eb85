import Mathlib.Algebra.BigOperators.Group.Finset.Piecewise
import Mathlib.Data.Fintype.Card

/-!
# Counting threads

Finitely many threads are each in some local state.  `census p` counts those in a state
with a property, and `census_update` says how one thread's step changes the count.
-/

namespace Threads

variable {T σ : Type*} [Fintype T] [DecidableEq T]

/-- How many threads are in a state with the property. -/
def census (p : σ → Prop) [DecidablePred p] (states : T → σ) : ℕ :=
  (Finset.univ.filter fun t => p (states t)).card

variable {p : σ → Prop} [DecidablePred p] {states : T → σ} {t : T}

/-- The count without one thread does not depend on that thread. -/
private theorem census_eq (p : σ → Prop) [DecidablePred p] (states : T → σ) (t : T) :
    census p states = (if p (states t) then 1 else 0) +
      ∑ u ∈ Finset.univ.erase t, if p (states u) then 1 else 0 := by
  unfold census
  rw [Finset.card_filter]
  exact (Finset.add_sum_erase _ _ (Finset.mem_univ t)).symm

theorem census_update (p : σ → Prop) [DecidablePred p] (states : T → σ) (t : T) (state : σ) :
    census p (Function.update states t state) + (if p (states t) then 1 else 0) =
      census p states + if p state then 1 else 0 := by
  rw [census_eq p (Function.update states t state) t, census_eq p states t, Function.update_self]
  have hrest : (∑ u ∈ Finset.univ.erase t,
      if p (Function.update states t state u) then 1 else 0) =
        ∑ u ∈ Finset.univ.erase t, if p (states u) then 1 else 0 := by
    refine Finset.sum_congr rfl fun u hu => ?_
    rw [Function.update_of_ne (Finset.ne_of_mem_erase hu)]
  rw [hrest]
  omega

omit [DecidableEq T] in
theorem census_pos (h : p (states t)) : 0 < census p states :=
  Finset.card_pos.mpr ⟨t, Finset.mem_filter.mpr ⟨Finset.mem_univ t, h⟩⟩

omit [DecidableEq T] in
theorem census_le_card (p : σ → Prop) [DecidablePred p] (states : T → σ) :
    census p states ≤ Fintype.card T :=
  Finset.card_le_univ _

omit [DecidableEq T] in
theorem census_eq_zero (h : ∀ t, ¬ p (states t)) : census p states = 0 := by
  simp [census, h]

end Threads
