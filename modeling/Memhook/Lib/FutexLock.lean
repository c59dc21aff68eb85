import Mathlib.Logic.Function.Basic

/-!
# A lock on a word with sleepers

The protocol of a lock that is one word.  The word says that the lock is free, that it is
held, or that it is held and somebody may be asleep.  Threads that find the lock taken try
on: they may mark the word as contended, and go to sleep only while it is.  A release that
does not find the plain mark wakes one sleeper afterwards.

`Move` is everything that can happen.  Two things are kept by every move, for any number of
threads: the holder is unique and the word is free exactly without one (`Exclusive`), and a
sleeper is always looked after (`Covered`): by the mark, which will make the release wake
somebody; by a thread that is going to wake somebody; or by a thread that tries, which cannot
get the lock without leaving the mark.
-/

namespace FutexLock

/-- The word of the lock. -/
inductive Word
  | free
  | held
  | contended
  deriving DecidableEq

/-- Where a thread is in the code of the lock. -/
inductive Phase
  | outside
  | trying
  | asleep
  | holding
  /-- The lock is given back, and a sleeper is to be woken. -/
  | waking
  deriving DecidableEq

structure State (T : Type*) where
  word : Word
  phase : T → Phase

namespace State

variable {T : Type*} [DecidableEq T]

/-- A thread goes on to another phase. -/
def goto (state : State T) (word : Word) (t : T) (phase : Phase) : State T :=
  ⟨word, Function.update state.phase t phase⟩

@[simp] theorem word_goto (state : State T) (word : Word) (t : T) (phase : Phase) :
    (state.goto word t phase).word = word := rfl

@[simp] theorem phase_goto_self (state : State T) (word : Word) (t : T) (phase : Phase) :
    (state.goto word t phase).phase t = phase :=
  Function.update_self ..

theorem phase_goto_of_ne (state : State T) (word : Word) {t u : T} (h : u ≠ t) (phase : Phase) :
    (state.goto word t phase).phase u = state.phase u :=
  Function.update_of_ne h ..

theorem goto_eq_self (state : State T) {t : T} {phase : Phase} (h : state.phase t = phase) :
    state.goto state.word t phase = state := by
  rw [goto, ← h, Function.update_eq_self]

/-- A thread is in another phase than before only if it is the one that went on. -/
theorem eq_or_phase_goto (state : State T) (word : Word) (t u : T) (phase : Phase) :
    u = t ∨ (state.goto word t phase).phase u = state.phase u := by
  by_cases h : u = t
  · exact .inl h
  · exact .inr (state.phase_goto_of_ne word h phase)

end State

section Moves

variable {T : Type*} [DecidableEq T]

/-- What can happen. -/
inductive Move (state : State T) : State T → Prop
  | stay : Move state state
  | acquire {t : T} (hphase : state.phase t = .outside) (hword : state.word = .free) :
      Move state (state.goto .held t .holding)
  | enter {t : T} (hphase : state.phase t = .outside) :
      Move state (state.goto state.word t .trying)
  | acquireTrying {t : T} (hphase : state.phase t = .trying) (hword : state.word = .free) :
      Move state (state.goto .contended t .holding)
  | mark {t : T} (hphase : state.phase t = .trying) (hword : state.word = .held) :
      Move state (state.goto .contended t .trying)
  | sleep {t : T} (hphase : state.phase t = .trying) (hword : state.word = .contended) :
      Move state (state.goto .contended t .asleep)
  | timeout {t : T} (hphase : state.phase t = .asleep) :
      Move state (state.goto state.word t .trying)
  | release {t : T} (hphase : state.phase t = .holding) (hword : state.word = .held) :
      Move state (state.goto .free t .outside)
  | releaseContended {t : T} (hphase : state.phase t = .holding) :
      Move state (state.goto .free t .waking)
  | wake {t u : T} (hphase : state.phase t = .waking) (hasleep : state.phase u = .asleep) :
      Move state ((state.goto state.word t .outside).goto state.word u .trying)
  | wakeNobody {t : T} (hphase : state.phase t = .waking)
      (hnobody : ∀ u, state.phase u ≠ .asleep) :
      Move state (state.goto state.word t .outside)

/-- At most one thread holds the lock, and the word is free exactly if none does. -/
structure Exclusive (state : State T) : Prop where
  unique : ∀ t u, state.phase t = .holding → state.phase u = .holding → t = u
  free_iff : state.word = .free ↔ ∀ t, state.phase t ≠ .holding

/-- Somebody looks after the sleepers, if there are any. -/
def Covered (state : State T) : Prop :=
  (∃ t, state.phase t = .asleep) →
    state.word = .contended ∨ (∃ t, state.phase t = .waking) ∨ ∃ t, state.phase t = .trying

variable {state next : State T}

/-! ## Exclusion -/

/-- The lock is free and is taken. -/
theorem Exclusive.take (h : Exclusive state) (hfree : state.word = .free) {word : Word}
    (hword : word ≠ .free) (t : T) : Exclusive (state.goto word t .holding) := by
  have hnone := h.free_iff.mp hfree
  have honly : ∀ u, (state.goto word t .holding).phase u = .holding → u = t := by
    intro u hu
    rcases state.eq_or_phase_goto word t u .holding with heq | hsame
    · exact heq
    · exact absurd (hsame ▸ hu) (hnone u)
  refine ⟨fun u v hu hv => (honly u hu).trans (honly v hv).symm, iff_of_false hword ?_⟩
  intro hnobody
  exact hnobody t (state.phase_goto_self word t .holding)

/-- The holder gives the lock back. -/
theorem Exclusive.give (h : Exclusive state) {t : T} (hholding : state.phase t = .holding)
    {phase : Phase} (hphase : phase ≠ .holding) : Exclusive (state.goto .free t phase) := by
  have hnobody : ∀ u, (state.goto .free t phase).phase u ≠ .holding := by
    intro u hu
    rcases state.eq_or_phase_goto .free t u phase with rfl | hsame
    · rw [State.phase_goto_self] at hu
      exact hphase hu
    · -- any other holder would be this one
      have heq := h.unique u t (hsame ▸ hu) hholding
      rw [heq, State.phase_goto_self] at hu
      exact hphase hu
  exact ⟨fun u _ hu => absurd hu (hnobody u), iff_of_true rfl hnobody⟩

/-- A thread without the lock goes on without it. -/
theorem Exclusive.pass (h : Exclusive state) {t : T} (hbefore : state.phase t ≠ .holding)
    {phase : Phase} (hafter : phase ≠ .holding) {word : Word}
    (hword : word = .free ↔ state.word = .free) : Exclusive (state.goto word t phase) := by
  have hsame : ∀ u, (state.goto word t phase).phase u = .holding ↔ state.phase u = .holding := by
    intro u
    by_cases heq : u = t
    · rw [heq, State.phase_goto_self]
      exact iff_of_false hafter hbefore
    · rw [state.phase_goto_of_ne word heq]
  refine ⟨fun u v hu hv => h.unique u v ((hsame u).mp hu) ((hsame v).mp hv), ?_⟩
  rw [State.word_goto, hword, h.free_iff]
  exact forall_congr' fun u => not_congr (hsame u).symm

theorem Move.exclusive (hmove : Move state next) (h : Exclusive state) : Exclusive next := by
  cases hmove with
  | stay => exact h
  | acquire _ hword => exact h.take hword (by decide) _
  | acquireTrying _ hword => exact h.take hword (by decide) _
  | release hphase _ => exact h.give hphase (by decide)
  | releaseContended hphase => exact h.give hphase (by decide)
  | enter hphase => exact h.pass (by simp [hphase]) (by decide) Iff.rfl
  | mark hphase hword => exact h.pass (by simp [hphase]) (by decide) (by simp [hword])
  | sleep hphase hword => exact h.pass (by simp [hphase]) (by decide) (by simp [hword])
  | timeout hphase => exact h.pass (by simp [hphase]) (by decide) Iff.rfl
  | wakeNobody hphase _ => exact h.pass (by simp [hphase]) (by decide) Iff.rfl
  | @wake t u hphase hasleep =>
      have hne : u ≠ t := by
        rintro rfl
        rw [hphase] at hasleep
        exact absurd hasleep (by decide)
      have hfirst : Exclusive (state.goto state.word t .outside) :=
        h.pass (by simp [hphase]) (by decide) Iff.rfl
      refine hfirst.pass ?_ (by decide) Iff.rfl
      rw [state.phase_goto_of_ne _ hne, hasleep]
      decide

/-! ## Sleepers -/

/-- While the mark is not there, a thread that did not look after the sleepers goes on. -/
theorem Covered.pass (h : Covered state) (hword : state.word ≠ .contended) {t : T}
    (hwaking : state.phase t ≠ .waking) (htrying : state.phase t ≠ .trying) {phase : Phase}
    (hphase : phase ≠ .asleep) (word : Word) : Covered (state.goto word t phase) := by
  have hother : ∀ u other, state.phase u = other → state.phase t ≠ other →
      (state.goto word t phase).phase u = other := by
    intro u other hu ht
    have hne : u ≠ t := by
      rintro rfl
      exact ht hu
    rw [state.phase_goto_of_ne word hne, hu]
  rintro ⟨u, hu⟩
  have hasleep : state.phase u = .asleep := by
    rcases state.eq_or_phase_goto word t u phase with rfl | hsame
    · rw [State.phase_goto_self] at hu
      exact absurd hu hphase
    · exact hsame ▸ hu
  rcases h ⟨u, hasleep⟩ with hcontended | ⟨v, hv⟩ | ⟨v, hv⟩
  · exact absurd hcontended hword
  · exact .inr (.inl ⟨v, hother v _ hv hwaking⟩)
  · exact .inr (.inr ⟨v, hother v _ hv htrying⟩)

theorem Move.covered (hmove : Move state next) (h : Covered state) : Covered next := by
  cases hmove with
  | stay => exact h
  | acquire hphase hword =>
      exact h.pass (by simp [hword]) (by simp [hphase]) (by simp [hphase]) (by decide) _
  | release hphase hword =>
      exact h.pass (by simp [hword]) (by simp [hphase]) (by simp [hphase]) (by decide) _
  -- the mark is left behind
  | acquireTrying _ _ => exact fun _ => .inl rfl
  | mark _ _ => exact fun _ => .inl rfl
  | sleep _ _ => exact fun _ => .inl rfl
  -- the thread itself looks after the sleepers
  | enter _ => exact fun _ => .inr (.inr ⟨_, state.phase_goto_self ..⟩)
  | timeout _ => exact fun _ => .inr (.inr ⟨_, state.phase_goto_self ..⟩)
  | releaseContended _ => exact fun _ => .inr (.inl ⟨_, state.phase_goto_self ..⟩)
  | wake _ _ => exact fun _ => .inr (.inr ⟨_, State.phase_goto_self ..⟩)
  | @wakeNobody t hphase hnobody =>
      rintro ⟨u, hu⟩
      rcases state.eq_or_phase_goto state.word t u .outside with rfl | hsame
      · rw [State.phase_goto_self] at hu
        exact absurd hu (by decide)
      · exact absurd (hsame ▸ hu) (hnobody u)

end Moves

end FutexLock
