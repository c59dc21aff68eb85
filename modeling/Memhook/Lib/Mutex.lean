import Mathlib.Data.Nat.Notation
import Mathlib.Logic.Function.Basic

/-!
# A recursive mutex and what it guards

A recursive mutex counts how often its owner has entered it.  Unlocking it fails for everybody
but the owner.

`Guards` relates the mutex to the program counters of the threads: those inside of a critical
section are the owner alone, who has entered once.  It is kept when a thread locks and goes
inside, when it unlocks and goes outside, and when no thread crosses the border; and while it
holds, whoever is inside can unlock.
-/

namespace Mutex

/-- The mutex is free, or held by a thread that has entered it some further times. -/
inductive State (T : Type*)
  | free
  | held (owner : T) (again : ℕ)

variable {T σ : Type*} [DecidableEq T]

/-- Locking; there is no result while the thread has to wait. -/
def lock? (t : T) : State T → Option (State T)
  | .free => some (.held t 0)
  | .held owner again => if owner = t then some (.held t (again + 1)) else none

/-- Unlocking; there is no result for a thread that is not the owner. -/
def unlock? (t : T) : State T → Option (State T)
  | .free => none
  | .held owner again =>
      if owner = t then
        match again with
        | 0 => some .free
        | again + 1 => some (.held t again)
      else none

theorem of_lock?_eq_some {t : T} {mutex mutex' : State T} (h : lock? t mutex = some mutex') :
    mutex = .free ∧ mutex' = .held t 0 ∨
      ∃ again, mutex = .held t again ∧ mutex' = .held t (again + 1) := by
  cases mutex with
  | free => exact .inl ⟨rfl, (Option.some.inj h).symm⟩
  | held owner again =>
      rw [lock?] at h
      split at h
      · next howner =>
          subst howner
          exact .inr ⟨again, rfl, (Option.some.inj h).symm⟩
      · cases h

variable {inside : σ → Prop} {mutex mutex' : State T} {pc pc' : T → σ} {t u : T} {next : σ}

/-- The owner is inside, having entered once, and nobody else is. -/
def Guards (inside : σ → Prop) (mutex : State T) (pc : T → σ) : Prop :=
  match mutex with
  | .free => ∀ t, ¬ inside (pc t)
  | .held owner again => again = 0 ∧ ∀ t, inside (pc t) ↔ t = owner

omit [DecidableEq T] in
theorem Guards.unique (h : Guards inside mutex pc) (ht : inside (pc t)) (hu : inside (pc u)) :
    t = u := by
  cases mutex with
  | free => exact absurd ht (h t)
  | held owner again => exact ((h.2 t).mp ht).trans ((h.2 u).mp hu).symm

omit [DecidableEq T] in
/-- No thread crosses the border. -/
theorem Guards.congr (h : Guards inside mutex pc) (hsame : ∀ t, inside (pc' t) ↔ inside (pc t)) :
    Guards inside mutex pc' := by
  cases mutex with
  | free => exact fun t ht => h t ((hsame t).mp ht)
  | held owner again => exact ⟨h.1, fun t => (hsame t).trans (h.2 t)⟩

theorem Guards.stay (h : Guards inside mutex pc) (hsame : inside next ↔ inside (pc t)) :
    Guards inside mutex (Function.update pc t next) := by
  refine h.congr fun u => ?_
  by_cases hu : u = t
  · rw [hu, Function.update_self]
    exact hsame
  · rw [Function.update_of_ne hu]

/-- Who comes in from outside finds the mutex free. -/
theorem Guards.eq_free_of_lock (h : Guards inside mutex pc) (hlock : lock? t mutex = some mutex')
    (houtside : ¬ inside (pc t)) : mutex = .free := by
  cases mutex with
  | free => rfl
  | held owner again =>
      -- the owner is inside, so it does not come in again
      have howner : owner ≠ t := by
        rintro rfl
        exact houtside ((h.2 owner).mpr rfl)
      simp [lock?, howner] at hlock

theorem Guards.lock (h : Guards inside mutex pc) (hlock : lock? t mutex = some mutex')
    (houtside : ¬ inside (pc t)) (hnext : inside next) :
    Guards inside mutex' (Function.update pc t next) := by
  obtain rfl := h.eq_free_of_lock hlock houtside
  obtain rfl : State.held t 0 = mutex' := by simpa [lock?] using hlock
  refine ⟨rfl, fun u => ?_⟩
  by_cases hu : u = t
  · simp [hu, hnext]
  · simp [hu, h u]

/-- Who is inside can unlock. -/
theorem Guards.unlock?_eq (h : Guards inside mutex pc) (hinside : inside (pc t)) :
    unlock? t mutex = some .free := by
  cases mutex with
  | free => exact absurd hinside (h t)
  | held owner again =>
      obtain ⟨rfl, howner⟩ := h
      rw [(howner t).mp hinside]
      simp [unlock?]

theorem Guards.unlock (h : Guards inside mutex pc) (hinside : inside (pc t))
    (hnext : ¬ inside next) : Guards inside .free (Function.update pc t next) := by
  intro u hu
  by_cases heq : u = t
  · rw [heq, Function.update_self] at hu
    exact hnext hu
  · rw [Function.update_of_ne heq] at hu
    exact heq (h.unique hu hinside)

/-- Who has to wait waits for somebody inside. -/
theorem Guards.exists_inside (h : Guards inside mutex pc) (hlock : lock? t mutex = none) :
    ∃ u, inside (pc u) := by
  cases mutex with
  | free => simp [lock?] at hlock
  | held owner again => exact ⟨owner, (h.2 owner).mpr rfl⟩

end Mutex
