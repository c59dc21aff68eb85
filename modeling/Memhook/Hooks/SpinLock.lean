import Memhook.Lib.FutexLock
import Memhook.Lib.Run

/-!
# The spin lock

`SpinLock` of `src/memhook/spin_lock.h` and `src/memhook/spin_lock.cpp`, which guards the
exchange of the new handler in `operator new`.  Any number of threads lock and unlock it;
every access to `m_lock_value` is one step, and so is every call of `futex`.  What a thread
computes between two accesses belongs to the step before.

`FUTEX_WAIT` blocks the caller if the word still has the value it passes, and `FUTEX_WAKE`
unblocks one of the blocked threads, whichever the kernel chooses, if there is one.  A wait
may end at any time by itself.  Without `futex` the delay is a plain sleep.  How long delays
last is left out.

The code is the protocol of `Memhook.Lib.FutexLock`: a thread that is in `SlowLock` tries,
and can take the lock only with the mark.  So the lock excludes, and whoever is blocked is
looked after.
-/

namespace Memhook

open FutexLock

/-- The values of `m_lock_value`. -/
inductive LockValue
  | kSpinLockFree
  | kSpinLockHeld
  | kSpinLockSleeper
  deriving DecidableEq, Repr

/-- The next access of a thread.  In `SlowLock`, `loop` is its counter. -/
inductive SpinLockPc
  /-- The compare-and-swap of `Lock`, when the thread calls it. -/
  | idle
  /-- The load in `SpinLoop`, with `c` rounds left. -/
  | loading (c loop : Int32)
  /-- The compare-and-swap that ends `SpinLoop`. -/
  | claiming (loop : Int32)
  /-- From held to sleeper. -/
  | marking (loop : Int32)
  /-- From free to sleeper, after the lock was found free instead of held. -/
  | retaking (loop : Int32)
  /-- The call of `SpinLockDelay`. -/
  | delaying (value : LockValue) (loop : Int32)
  /-- Inside `FUTEX_WAIT`. -/
  | blocked (loop : Int32)
  /-- The exchange of `Unlock`, when the thread calls it. -/
  | holding
  /-- The call of `SpinLockWake`. -/
  | waking
  deriving DecidableEq

namespace SpinLockPc

/-- Where a thread is in the protocol. -/
def phase : SpinLockPc → Phase
  | idle => .outside
  | loading _ _ | claiming _ | marking _ | retaking _ | delaying _ _ => .trying
  | blocked _ => .asleep
  | holding => .holding
  | waking => .waking

/-- The thread is in `SlowLock` and not blocked. -/
def Awake : SpinLockPc → Prop
  | loading _ _ | claiming _ | marking _ | retaking _ | delaying _ _ => True
  | _ => False

theorem phase_eq_asleep {pc : SpinLockPc} : pc.phase = .asleep ↔ ∃ loop, pc = blocked loop := by
  cases pc <;> simp [phase]

theorem phase_eq_holding {pc : SpinLockPc} : pc.phase = .holding ↔ pc = holding := by
  cases pc <;> simp [phase]

theorem phase_eq_waking {pc : SpinLockPc} : pc.phase = .waking ↔ pc = waking := by
  cases pc <;> simp [phase]

theorem phase_eq_trying {pc : SpinLockPc} : pc.phase = .trying ↔ pc.Awake := by
  cases pc <;> simp [phase, Awake]

end SpinLockPc

/-- The word of the protocol. -/
def LockValue.word : LockValue → Word
  | kSpinLockFree => .free
  | kSpinLockHeld => .held
  | kSpinLockSleeper => .contended

structure SpinLockMachine (T : Type*) where
  lockValue : LockValue
  pc : T → SpinLockPc

/-- A thread makes its next access, its wait ends by itself, or it calls `FUTEX_WAKE` and
the kernel unblocks `victim`. -/
inductive SpinLockEvent (T : Type*)
  | advance (t : T)
  | timeout (t : T)
  | wake (t : T) (victim : Option T)

namespace SpinLockMachine

open LockValue SpinLockPc

variable {T : Type*} [DecidableEq T]

/-- The constructor, before any thread comes. -/
def initial : SpinLockMachine T := ⟨kSpinLockFree, fun _ => idle⟩

def goto (machine : SpinLockMachine T) (t : T) (pc : SpinLockPc) : SpinLockMachine T :=
  { machine with pc := Function.update machine.pc t pc }

@[simp] theorem pc_goto_self (machine : SpinLockMachine T) (t : T) (pc : SpinLockPc) :
    (machine.goto t pc).pc t = pc :=
  Function.update_self ..

theorem pc_goto_of_ne (machine : SpinLockMachine T) {t u : T} (h : u ≠ t) (pc : SpinLockPc) :
    (machine.goto t pc).pc u = machine.pc u :=
  Function.update_of_ne h ..

/-- `CompareAndSwap`; what it returns is the value of before. -/
def compareAndSwap (machine : SpinLockMachine T) (oldValue newValue : LockValue) :
    SpinLockMachine T :=
  { machine with lockValue := if machine.lockValue = oldValue then newValue else machine.lockValue }

/-- The head of the loop of `SlowLock`, and the first test in it. -/
def slowLock (lockValue : LockValue) (loop : Int32) : SpinLockPc :=
  if lockValue = kSpinLockFree then holding
  else if lockValue = kSpinLockHeld then marking loop
  else delaying lockValue (loop + 1)

/-- What `SlowLock` does with the answer to `marking`. -/
def marked (found : LockValue) (loop : Int32) : SpinLockPc :=
  if found = kSpinLockHeld then delaying kSpinLockSleeper (loop + 1)
  else if found = kSpinLockFree then retaking loop
  else delaying found (loop + 1)

section Step

variable (haveFutex : Bool) (adaptiveSpinCount : Int32)

/-- `SpinLockDelay`, and the start of the next `SpinLoop`. -/
def spinLockDelay (machine : SpinLockMachine T) (t : T) (value : LockValue) (loop : Int32) :
    SpinLockMachine T :=
  if loop.toUInt32 = 0 ∨ loop.toUInt32 = 1 then machine.goto t (loading adaptiveSpinCount loop)
  else if haveFutex ∧ machine.lockValue = value then machine.goto t (blocked loop)
  else machine.goto t (loading adaptiveSpinCount loop)

/-- The next access of a thread. -/
def advance (machine : SpinLockMachine T) (t : T) : SpinLockMachine T :=
  let found := machine.lockValue
  match machine.pc t with
  | idle =>
      (machine.compareAndSwap kSpinLockFree kSpinLockHeld).goto t
        (if found ≠ kSpinLockFree then loading adaptiveSpinCount 0 else holding)
  | loading c loop =>
      machine.goto t (if found ≠ kSpinLockFree ∧ 0 < c - 1 then loading (c - 1) loop
        else claiming loop)
  | claiming loop =>
      (machine.compareAndSwap kSpinLockFree kSpinLockSleeper).goto t (slowLock found loop)
  | marking loop =>
      (machine.compareAndSwap kSpinLockHeld kSpinLockSleeper).goto t (marked found loop)
  | retaking loop =>
      (machine.compareAndSwap kSpinLockFree kSpinLockSleeper).goto t (slowLock found loop)
  | delaying value loop => machine.spinLockDelay haveFutex adaptiveSpinCount t value loop
  | holding =>
      { machine with lockValue := kSpinLockFree }.goto t
        (if found ≠ kSpinLockHeld then waking else idle)
  -- blocked threads wait for `timeout` or `wake`, and `wake` is an event of its own
  | blocked _ | waking => machine

/-- The wait of a thread ends. -/
def unblock (machine : SpinLockMachine T) (t : T) : SpinLockMachine T :=
  match machine.pc t with
  | blocked loop => machine.goto t (loading adaptiveSpinCount loop)
  | _ => machine

def step (machine : SpinLockMachine T) : SpinLockEvent T → SpinLockMachine T
  | .advance t => machine.advance haveFutex adaptiveSpinCount t
  | .timeout t => machine.unblock adaptiveSpinCount t
  | .wake t victim =>
      if machine.pc t = waking then
        match victim with
        | some u => (machine.goto t idle).unblock adaptiveSpinCount u
        | none => machine.goto t idle
      else machine

end Step

/-- The kernel unblocks a blocked thread if there is one. -/
def Possible (machine : SpinLockMachine T) : SpinLockEvent T → Prop
  | .wake _ (some u) => ∃ loop, machine.pc u = blocked loop
  | .wake _ none => ∀ u loop, machine.pc u ≠ blocked loop
  | _ => True

/-! ## The protocol -/

/-- The machine as a state of the protocol. -/
def protocol (machine : SpinLockMachine T) : State T :=
  ⟨machine.lockValue.word, fun t => (machine.pc t).phase⟩

/-- Who is about to wait waits for the mark to go. -/
def WaitsForMark (machine : SpinLockMachine T) : Prop :=
  ∀ t value loop, machine.pc t = delaying value loop → value = kSpinLockSleeper

section Simulation

variable {machine : SpinLockMachine T} {t : T}

omit [DecidableEq T] in
theorem phase_protocol (machine : SpinLockMachine T) (t : T) :
    machine.protocol.phase t = (machine.pc t).phase := rfl

theorem protocol_goto (machine : SpinLockMachine T) (lockValue : LockValue) (t : T)
    (pc : SpinLockPc) :
    ({ machine with lockValue := lockValue }.goto t pc).protocol =
      machine.protocol.goto lockValue.word t pc.phase := by
  rw [protocol, State.goto]
  congr 1
  exact Function.comp_update SpinLockPc.phase machine.pc t pc

/-- A step of a thread that stays in its phase and leaves the word alone. -/
theorem move_of_phase_eq {pc : SpinLockPc} (h : pc.phase = (machine.pc t).phase) :
    Move machine.protocol (machine.goto t pc).protocol := by
  have hgoto := protocol_goto machine machine.lockValue t pc
  rw [show (machine.goto t pc).protocol = _ from hgoto, h]
  have hself := machine.protocol.goto_eq_self (phase_protocol machine t)
  rw [show machine.protocol.goto machine.lockValue.word t (machine.pc t).phase = _ from hself]
  exact .stay

omit [DecidableEq T] in
theorem word_protocol {lockValue : LockValue} (h : machine.lockValue = lockValue) :
    machine.protocol.word = lockValue.word :=
  congrArg LockValue.word h

/-- A compare-and-swap that changes nothing. -/
theorem move_of_unchanged (hphase : machine.protocol.phase t = .trying) {lockValue : LockValue}
    (hvalue : machine.lockValue = lockValue) :
    Move machine.protocol (machine.protocol.goto lockValue.word t .trying) := by
  rw [← word_protocol hvalue, machine.protocol.goto_eq_self hphase]
  exact .stay

variable (haveFutex : Bool) (adaptiveSpinCount : Int32)

/-- A compare-and-swap from free to sleeper in `SlowLock`. -/
theorem move_claim (hphase : machine.protocol.phase t = .trying) (loop : Int32) :
    Move machine.protocol ((machine.compareAndSwap kSpinLockFree kSpinLockSleeper).goto t
      (slowLock machine.lockValue loop)).protocol := by
  rw [compareAndSwap, protocol_goto]
  cases hvalue : machine.lockValue with
  | kSpinLockFree => exact .acquireTrying hphase (word_protocol hvalue)
  | kSpinLockHeld => exact move_of_unchanged hphase hvalue
  | kSpinLockSleeper => exact move_of_unchanged hphase hvalue

theorem move_spinLockDelay (hphase : machine.protocol.phase t = .trying) {value : LockValue}
    (hmark : value = kSpinLockSleeper) (loop : Int32) :
    Move machine.protocol
      (machine.spinLockDelay haveFutex adaptiveSpinCount t value loop).protocol := by
  unfold spinLockDelay
  split
  · exact move_of_phase_eq hphase.symm
  · split
    next hwait =>
      have hword := word_protocol (hwait.2.trans hmark)
      have hgoto := protocol_goto machine kSpinLockSleeper t (blocked loop)
      rw [← hmark, ← hwait.2] at hgoto
      rw [show (machine.goto t (blocked loop)).protocol = _ from hgoto, hwait.2, hmark]
      exact .sleep hphase hword
    next => exact move_of_phase_eq hphase.symm

theorem move_advance (hwaits : machine.WaitsForMark) (t : T) :
    Move machine.protocol (machine.advance haveFutex adaptiveSpinCount t).protocol := by
  have hphase := phase_protocol machine t
  unfold advance
  cases hpc : machine.pc t with
  | idle =>
      rw [hpc] at hphase
      simp only [compareAndSwap, protocol_goto]
      cases hvalue : machine.lockValue with
      | kSpinLockFree => exact .acquire hphase (word_protocol hvalue)
      | kSpinLockHeld => exact word_protocol hvalue ▸ .enter hphase
      | kSpinLockSleeper => exact word_protocol hvalue ▸ .enter hphase
  | loading c loop =>
      refine move_of_phase_eq ?_
      rw [hpc]
      split <;> rfl
  | claiming loop =>
      rw [hpc] at hphase
      exact move_claim hphase loop
  | marking loop =>
      rw [hpc] at hphase
      simp only [compareAndSwap, protocol_goto]
      cases hvalue : machine.lockValue with
      | kSpinLockFree => exact move_of_unchanged hphase hvalue
      | kSpinLockHeld => exact .mark hphase (word_protocol hvalue)
      | kSpinLockSleeper => exact move_of_unchanged hphase hvalue
  | retaking loop =>
      rw [hpc] at hphase
      exact move_claim hphase loop
  | delaying value loop =>
      rw [hpc] at hphase
      exact move_spinLockDelay haveFutex adaptiveSpinCount hphase (hwaits t value loop hpc) loop
  | blocked loop => exact .stay
  | holding =>
      rw [hpc] at hphase
      simp only [protocol_goto]
      cases hvalue : machine.lockValue with
      | kSpinLockFree => exact .releaseContended hphase
      | kSpinLockHeld => exact .release hphase (word_protocol hvalue)
      | kSpinLockSleeper => exact .releaseContended hphase
  | waking => exact .stay

theorem protocol_goto_self (machine : SpinLockMachine T) (t : T) (pc : SpinLockPc) :
    (machine.goto t pc).protocol = machine.protocol.goto machine.protocol.word t pc.phase :=
  protocol_goto machine machine.lockValue t pc

theorem move_unblock (t : T) :
    Move machine.protocol (machine.unblock adaptiveSpinCount t).protocol := by
  have hphase := phase_protocol machine t
  unfold unblock
  split
  next loop hpc =>
    rw [hpc] at hphase
    rw [protocol_goto_self]
    exact .timeout hphase
  next => exact .stay

/-- **The code follows the protocol.** -/
theorem move_step (hwaits : machine.WaitsForMark) {event : SpinLockEvent T}
    (hpossible : machine.Possible event) :
    Move machine.protocol (machine.step haveFutex adaptiveSpinCount event).protocol := by
  cases event with
  | advance t => exact move_advance haveFutex adaptiveSpinCount hwaits t
  | timeout t => exact move_unblock adaptiveSpinCount t
  | wake t victim =>
      by_cases hpc : machine.pc t = waking
      · have hphase := phase_protocol machine t
        rw [hpc] at hphase
        cases victim with
        | none =>
            simp only [step, if_pos hpc, protocol_goto_self]
            refine .wakeNobody hphase ?_
            intro u hu
            obtain ⟨loop, hblocked⟩ := phase_eq_asleep.mp hu
            exact hpossible u loop hblocked
        | some u =>
            obtain ⟨loop, hblocked⟩ := hpossible
            have hne : u ≠ t := by
              rintro rfl
              simp [hpc] at hblocked
            have hafter : (machine.goto t idle).pc u = blocked loop := by
              rw [pc_goto_of_ne machine hne, hblocked]
            simp only [step, if_pos hpc, unblock, hafter, protocol_goto_self]
            exact .wake hphase (phase_eq_asleep.mpr ⟨loop, hblocked⟩)
      · simp only [step, if_neg hpc]
        exact .stay

/-- Whomever the kernel chooses, the lock excludes. -/
theorem exclusive_step (hwaits : machine.WaitsForMark) (h : Exclusive machine.protocol)
    (event : SpinLockEvent T) :
    Exclusive (machine.step haveFutex adaptiveSpinCount event).protocol := by
  cases event with
  | advance t => exact (move_advance haveFutex adaptiveSpinCount hwaits t).exclusive h
  | timeout t => exact (move_unblock adaptiveSpinCount t).exclusive h
  | wake t victim =>
      by_cases hpc : machine.pc t = waking
      · have hphase := phase_protocol machine t
        rw [hpc] at hphase
        have hidle : Exclusive (machine.goto t idle).protocol := by
          rw [protocol_goto_self]
          exact h.pass (by simp [hphase, phase]) (by decide) Iff.rfl
        cases victim with
        | none =>
            simp only [step, if_pos hpc]
            exact hidle
        | some u =>
            simp only [step, if_pos hpc]
            exact (move_unblock adaptiveSpinCount u).exclusive hidle
      · simp only [step, if_neg hpc]
        exact h

/-! ## What a run keeps -/

/-- What a thread is about to do, if it is not to wait for anything but the mark. -/
theorem WaitsForMark.goto (h : machine.WaitsForMark) {pc : SpinLockPc}
    (hpc : ∀ value loop, pc = delaying value loop → value = kSpinLockSleeper) (t : T) :
    (machine.goto t pc).WaitsForMark := by
  intro u value loop hu
  by_cases heq : u = t
  · subst heq
    rw [pc_goto_self] at hu
    exact hpc value loop hu
  · rw [pc_goto_of_ne machine heq] at hu
    exact h u value loop hu

theorem eq_sleeper_of_slowLock {found value : LockValue} {loop loop' : Int32}
    (h : slowLock found loop = delaying value loop') : value = kSpinLockSleeper := by
  cases found <;> simp_all [slowLock]

theorem eq_sleeper_of_marked {found value : LockValue} {loop loop' : Int32}
    (h : marked found loop = delaying value loop') : value = kSpinLockSleeper := by
  cases found <;> simp_all [marked]

theorem WaitsForMark.unblock (h : machine.WaitsForMark) (t : T) :
    (machine.unblock adaptiveSpinCount t).WaitsForMark := by
  unfold SpinLockMachine.unblock
  split
  · exact h.goto (by simp) t
  · exact h

theorem WaitsForMark.advance (h : machine.WaitsForMark) (t : T) :
    (machine.advance haveFutex adaptiveSpinCount t).WaitsForMark := by
  -- the value of the lock does not matter for what a thread is about to do
  have hany : ∀ lockValue, ({ machine with lockValue := lockValue } :
      SpinLockMachine T).WaitsForMark := fun _ => h
  unfold SpinLockMachine.advance
  cases hpc : machine.pc t with
  | idle =>
      refine (hany _).goto ?_ t
      split <;> simp
  | loading c loop =>
      refine h.goto ?_ t
      split <;> simp
  | claiming loop => exact (hany _).goto (fun _ _ => eq_sleeper_of_slowLock) t
  | marking loop => exact (hany _).goto (fun _ _ => eq_sleeper_of_marked) t
  | retaking loop => exact (hany _).goto (fun _ _ => eq_sleeper_of_slowLock) t
  | delaying value loop =>
      simp only [spinLockDelay]
      split
      · exact h.goto (by simp) t
      · split <;> exact h.goto (by simp) t
  | holding =>
      refine (hany _).goto ?_ t
      split <;> simp
  | blocked loop => exact h
  | waking => exact h

theorem WaitsForMark.step (h : machine.WaitsForMark) (event : SpinLockEvent T) :
    (machine.step haveFutex adaptiveSpinCount event).WaitsForMark := by
  cases event with
  | advance t => exact h.advance haveFutex adaptiveSpinCount t
  | timeout t => exact h.unblock adaptiveSpinCount t
  | wake t victim =>
      by_cases hpc : machine.pc t = waking
      · cases victim with
        | none =>
            simp only [SpinLockMachine.step, if_pos hpc]
            exact h.goto (by simp) t
        | some u =>
            simp only [SpinLockMachine.step, if_pos hpc]
            exact (h.goto (by simp) t).unblock adaptiveSpinCount u
      · simp only [SpinLockMachine.step, if_neg hpc]
        exact h

omit [DecidableEq T] in
theorem waitsForMark_initial : (initial : SpinLockMachine T).WaitsForMark := by
  intro t value loop hpc
  simp [initial] at hpc

omit [DecidableEq T] in
theorem phase_initial (t : T) : (initial : SpinLockMachine T).protocol.phase t = .outside := rfl

omit [DecidableEq T] in
theorem exclusive_initial : Exclusive (initial : SpinLockMachine T).protocol := by
  have hnobody : ∀ t, (initial : SpinLockMachine T).protocol.phase t ≠ .holding := by
    intro t
    rw [phase_initial]
    decide
  exact ⟨fun t _ ht => absurd ht (hnobody t), iff_of_true rfl hnobody⟩

omit [DecidableEq T] in
theorem covered_initial : Covered (initial : SpinLockMachine T).protocol := by
  rintro ⟨t, ht⟩
  rw [phase_initial] at ht
  exact absurd ht (by decide)

variable {haveFutex adaptiveSpinCount}

/-- What holds in every state of a run. -/
theorem run_exclusive (events : List (SpinLockEvent T)) :
    let final := events.foldl (step haveFutex adaptiveSpinCount) initial
    final.WaitsForMark ∧ Exclusive final.protocol := by
  refine Run.invariant (P := fun _ _ => True) (I := fun machine : SpinLockMachine T =>
    machine.WaitsForMark ∧ Exclusive machine.protocol) ?_ ?_ (Run.Along.of_forall (by simp))
  · rintro machine event ⟨hwaits, hexclusive⟩ -
    exact ⟨hwaits.step haveFutex adaptiveSpinCount event,
      exclusive_step haveFutex adaptiveSpinCount hwaits hexclusive event⟩
  · exact ⟨waitsForMark_initial, exclusive_initial⟩

/-- What holds if the kernel wakes whom it can. -/
theorem run_covered {events : List (SpinLockEvent T)}
    (hpossible : Run.Along (step haveFutex adaptiveSpinCount) Possible initial events) :
    let final := events.foldl (step haveFutex adaptiveSpinCount) initial
    final.WaitsForMark ∧ Covered final.protocol := by
  refine Run.invariant (I := fun machine : SpinLockMachine T =>
    machine.WaitsForMark ∧ Covered machine.protocol) ?_ ?_ hpossible
  · rintro machine event ⟨hwaits, hcovered⟩ hevent
    have hmove := move_step haveFutex adaptiveSpinCount hwaits hevent
    exact ⟨hwaits.step haveFutex adaptiveSpinCount event, hmove.covered hcovered⟩
  · exact ⟨waitsForMark_initial, covered_initial⟩

end Simulation

/-- **The lock excludes.**  In every interleaving, with or without `futex` and for any number
of rounds, at most one thread holds the lock, and its value is free exactly if none does.
What the kernel does does not matter. -/
theorem spinLock_excludes (haveFutex : Bool) (adaptiveSpinCount : Int32)
    (events : List (SpinLockEvent T)) :
    let machine := events.foldl (step haveFutex adaptiveSpinCount) initial
    (∀ t u, machine.pc t = holding → machine.pc u = holding → t = u) ∧
      (machine.lockValue = kSpinLockFree ↔ ∀ t, machine.pc t ≠ holding) := by
  intro machine
  obtain ⟨-, hexclusive⟩ := run_exclusive (T := T) events
  constructor
  · intro t u ht hu
    exact hexclusive.unique t u (phase_eq_holding.mpr ht) (phase_eq_holding.mpr hu)
  · have hfree : machine.lockValue = kSpinLockFree ↔ machine.protocol.word = .free := by
      simp only [protocol]
      cases machine.lockValue <;> simp [LockValue.word]
    rw [hfree, hexclusive.free_iff]
    exact forall_congr' fun t => not_congr phase_eq_holding

/-- **No wake-up is lost.**  Whenever a thread is blocked, the value says so, or a thread has
given the lock back and has still to wake somebody, or a thread is awake in `SlowLock`; and
what is passed to `FUTEX_WAIT` is always the mark. -/
theorem spinLock_no_lost_wakeup {adaptiveSpinCount : Int32} {events : List (SpinLockEvent T)}
    (hpossible : Run.Along (step true adaptiveSpinCount) Possible initial events) :
    let machine := events.foldl (step true adaptiveSpinCount) initial
    ((∃ t loop, machine.pc t = blocked loop) →
      machine.lockValue = kSpinLockSleeper ∨ (∃ t, machine.pc t = waking) ∨
        ∃ t, (machine.pc t).Awake) ∧
      ∀ t value loop, machine.pc t = delaying value loop → value = kSpinLockSleeper := by
  intro machine
  obtain ⟨hwaits, hcovered⟩ := run_covered hpossible
  refine ⟨?_, hwaits⟩
  rintro ⟨t, loop, ht⟩
  rcases hcovered ⟨t, phase_eq_asleep.mpr ⟨loop, ht⟩⟩ with hword | ⟨u, hu⟩ | ⟨u, hu⟩
  · refine .inl ?_
    cases hvalue : machine.lockValue <;>
      simp [SpinLockMachine.protocol, machine, hvalue, LockValue.word] at hword ⊢
  · exact .inr (.inl ⟨u, phase_eq_waking.mp hu⟩)
  · exact .inr (.inr ⟨u, phase_eq_trying.mp hu⟩)

/-- One thread takes the lock, the other one goes to sleep, and the first gives it back. -/
def sampleEvents : List (SpinLockEvent Bool) :=
  .advance true :: List.replicate 8 (.advance false) ++ [.advance true]

theorem possible_sampleEvents : Run.Along (step true 0) Possible initial sampleEvents := by
  simp [sampleEvents, Run.Along, Possible, List.replicate]

theorem spinLock_no_lost_wakeup_sampleEvents :
    (sampleEvents.foldl (step true 0) initial).pc false = blocked 2 ∧
      ((sampleEvents.foldl (step true 0) initial).lockValue = kSpinLockSleeper ∨
        (∃ t, (sampleEvents.foldl (step true 0) initial).pc t = waking) ∨
        ∃ t, ((sampleEvents.foldl (step true 0) initial).pc t).Awake) := by
  have hblocked : (sampleEvents.foldl (step true 0) initial).pc false = blocked 2 := by decide
  exact ⟨hblocked, (spinLock_no_lost_wakeup possible_sampleEvents).1 ⟨false, 2, hblocked⟩⟩

end SpinLockMachine

end Memhook
