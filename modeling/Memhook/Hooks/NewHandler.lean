import Mathlib.Logic.Function.Basic
import Memhook.Lib.Run

/-!
# The new handler

When `malloc` fails, `do_cpp_alloc2` of `src/memhook/memhook.cpp` calls the handler that the
application has installed.  To find it, it takes it away with `set_new_handler(0)` and puts it
back, under `g_set_new_handler_lock`.

The lock keeps the threads of the hook apart, and not the application, which calls
`set_new_handler` by itself.  A call that falls between the two steps of a thread is answered
with `NULL`, and the thread then puts the old handler over the new one.  The one case in which
nobody notices is that of an application without a handler, which is without one again when
the thread puts back what it found; `Spares` says so, and it is exact.

The spin lock is one step here: a thread that wants it gets it when it is free.
-/

namespace Memhook

/-- How `do_cpp_alloc2` ends. -/
inductive AllocOutcome
  | memory
  | null
  | badAlloc
  deriving DecidableEq

/-- The next step of a thread; `H` are the handlers of the application, and `none` is `NULL`. -/
inductive AllocPc (H : Type*)
  | idle
  /-- `do_malloc` is running. -/
  | allocating (nothrow : Bool)
  /-- The constructor of `SpinLockHolder`. -/
  | locking (nothrow : Bool)
  /-- `nh = std::set_new_handler(0)`. -/
  | clearing (nothrow : Bool)
  /-- `std::set_new_handler(nh)`. -/
  | restoring (nothrow : Bool) (nh : Option H)
  /-- The destructor of `SpinLockHolder`. -/
  | unlocking (nothrow : Bool) (nh : Option H)
  /-- `(*nh)()` is running. -/
  | handling (nothrow : Bool) (nh : H)
  | returned (outcome : AllocOutcome)

namespace AllocPc

variable {H : Type*}

/-- The thread has the lock. -/
def Locked : AllocPc H → Prop
  | clearing _ | restoring _ _ | unlocking _ _ => True
  | _ => False

/-- The thread is between its two calls, and this is what it has found. -/
def Clears (pc : AllocPc H) (nh : Option H) : Prop := ∃ nothrow, pc = restoring nothrow nh

theorem Clears.locked {pc : AllocPc H} {nh : Option H} (h : pc.Clears nh) : pc.Locked := by
  obtain ⟨nothrow, rfl⟩ := h
  trivial

end AllocPc

structure NewHandlerMachine (T H : Type*) where
  /-- The handler of the C++ library. -/
  installed : Option H
  /-- What the application has installed last. -/
  latest : Option H
  /-- Who has `g_set_new_handler_lock`. -/
  lock : Option T
  pc : T → AllocPc H

inductive NewHandlerEvent (T H : Type*)
  /-- A thread calls `operator new`. -/
  | call (t : T) (nothrow : Bool)
  /-- `do_malloc` returns. -/
  | malloc (t : T) (succeeds : Bool)
  /-- The next step of a thread in the failure loop. -/
  | advance (t : T)
  /-- The handler returns or throws. -/
  | handled (t : T) (throws : Bool)
  /-- The application calls `std::set_new_handler`, on any thread. -/
  | setNewHandler (nh : Option H)

namespace NewHandlerMachine

open AllocPc

variable {T H : Type*} [DecidableEq T]

/-- No thread is in `operator new`, and there is no handler. -/
def initial : NewHandlerMachine T H := ⟨none, none, none, fun _ => idle⟩

def goto (machine : NewHandlerMachine T H) (t : T) (pc : AllocPc H) : NewHandlerMachine T H :=
  { machine with pc := Function.update machine.pc t pc }

/-- How the allocation ends without memory. -/
def failed (nothrow : Bool) : AllocPc H := returned (if nothrow then .null else .badAlloc)

/-- The next step in the failure loop. -/
def advance (machine : NewHandlerMachine T H) (t : T) : NewHandlerMachine T H :=
  match machine.pc t with
  | locking nothrow =>
      if machine.lock = none then { machine with lock := some t }.goto t (clearing nothrow)
      else machine
  | clearing nothrow =>
      { machine with installed := none }.goto t (restoring nothrow machine.installed)
  | restoring nothrow nh => { machine with installed := nh }.goto t (unlocking nothrow nh)
  | unlocking nothrow none => { machine with lock := none }.goto t (failed nothrow)
  | unlocking nothrow (some nh) => { machine with lock := none }.goto t (handling nothrow nh)
  | idle | allocating _ | handling _ _ | returned _ => machine

def step (machine : NewHandlerMachine T H) : NewHandlerEvent T H → NewHandlerMachine T H
  | .call t nothrow =>
      match machine.pc t with
      | idle | returned _ => machine.goto t (allocating nothrow)
      | _ => machine
  | .malloc t succeeds =>
      match machine.pc t with
      | allocating nothrow =>
          machine.goto t (if succeeds then returned .memory else locking nothrow)
      | _ => machine
  | .advance t => machine.advance t
  | .handled t throws =>
      match machine.pc t with
      | handling nothrow _ => machine.goto t (if throws then failed nothrow else allocating nothrow)
      | _ => machine
  | .setNewHandler nh => { machine with installed := nh, latest := nh }

/-- What an application's call of `set_new_handler` is answered with. -/
def handed (machine : NewHandlerMachine T H) : NewHandlerEvent T H → Option (Option H)
  | .setNewHandler _ => some machine.installed
  | _ => none

/-- No thread is between its two calls. -/
def Quiet (machine : NewHandlerMachine T H) : Prop := ∀ t nh, ¬ (machine.pc t).Clears nh

/-- A call of the application is not answered with `NULL` while it has a handler, and when no
thread is between its two calls, the handler is the application's. -/
def Unchanged (machine : NewHandlerMachine T H) (event : NewHandlerEvent T H) : Prop :=
  (machine.handed event = some none → machine.latest = none) ∧
    ((machine.step event).Quiet → (machine.step event).installed = (machine.step event).latest)

/-- Between its two calls the application calls `set_new_handler` only if the thread has found
no handler, and what is put back is what the application has. -/
def Spares (machine : NewHandlerMachine T H) : NewHandlerEvent T H → Prop
  | .setNewHandler _ => ∀ t nh, (machine.pc t).Clears nh → nh = none
  | .advance t => ∀ nh, (machine.pc t).Clears nh → machine.latest = nh
  | _ => True

/-- What a run keeps as long as the application is spared. -/
structure Balanced (machine : NewHandlerMachine T H) : Prop where
  /-- Only one thread has the lock. -/
  locked : ∀ t, (machine.pc t).Locked → machine.lock = some t
  quiet : machine.Quiet → machine.installed = machine.latest
  /-- The handler is with the thread, or there was none. -/
  cleared : ∀ t nh, (machine.pc t).Clears nh →
    nh = machine.latest ∧ machine.installed = none ∨
      nh = none ∧ machine.installed = machine.latest

/-! ## Where threads are -/

@[simp] theorem pc_goto_self (machine : NewHandlerMachine T H) (t : T) (pc : AllocPc H) :
    (machine.goto t pc).pc t = pc :=
  Function.update_self ..

theorem pc_goto_of_ne (machine : NewHandlerMachine T H) {t u : T} (h : u ≠ t) (pc : AllocPc H) :
    (machine.goto t pc).pc u = machine.pc u :=
  Function.update_of_ne h ..

variable {machine : NewHandlerMachine T H} {t : T} {pc : AllocPc H}

omit [DecidableEq T] in
theorem Balanced.unique (h : machine.Balanced) {u : T} (ht : (machine.pc t).Locked)
    (hu : (machine.pc u).Locked) : u = t :=
  Option.some_inj.mp ((h.locked u hu).symm.trans (h.locked t ht))

theorem locked_of_goto (hafter : ¬ pc.Locked) {u : T}
    (hu : ((machine.goto t pc).pc u).Locked) : u ≠ t ∧ (machine.pc u).Locked := by
  by_cases heq : u = t
  · subst heq
    rw [pc_goto_self] at hu
    exact absurd hu hafter
  · rw [pc_goto_of_ne machine heq] at hu
    exact ⟨heq, hu⟩

/-- A thread that goes on without being between its two calls. -/
theorem clears_goto_iff (hbefore : ∀ nh, ¬ (machine.pc t).Clears nh) (hafter : ∀ nh, ¬ pc.Clears nh)
    (u : T) (nh : Option H) :
    ((machine.goto t pc).pc u).Clears nh ↔ (machine.pc u).Clears nh := by
  by_cases heq : u = t
  · subst heq
    rw [pc_goto_self]
    exact iff_of_false (hafter nh) (hbefore nh)
  · rw [pc_goto_of_ne machine heq]

theorem Balanced.pass (h : machine.Balanced) (hbefore : ∀ nh, ¬ (machine.pc t).Clears nh)
    (hafter : ∀ nh, ¬ pc.Clears nh) (lock : Option T)
    (hlocked : ∀ u, (({ machine with lock := lock }.goto t pc).pc u).Locked → lock = some u) :
    ({ machine with lock := lock }.goto t pc).Balanced := by
  have hclears : ∀ u nh, (({ machine with lock := lock }.goto t pc).pc u).Clears nh ↔
      (machine.pc u).Clears nh := clears_goto_iff hbefore hafter
  refine ⟨hlocked, ?_, ?_⟩
  · intro hquiet
    exact h.quiet fun u nh hu => hquiet u nh ((hclears u nh).mpr hu)
  · intro u nh hu
    exact h.cleared u nh ((hclears u nh).mp hu)

/-! ## One step -/

namespace Balanced

/-- A thread goes on outside the lock. -/
theorem move (h : machine.Balanced) (hbefore : ¬ (machine.pc t).Locked) (hafter : ¬ pc.Locked) :
    (machine.goto t pc).Balanced := by
  refine h.pass (fun _ hclears => hbefore hclears.locked) (fun _ hclears => hafter hclears.locked)
    machine.lock ?_
  intro u hu
  obtain ⟨-, hu⟩ := locked_of_goto hafter hu
  exact h.locked u hu

theorem acquire (h : machine.Balanced) {nothrow : Bool} (hpc : machine.pc t = locking nothrow)
    (hfree : machine.lock = none) :
    ({ machine with lock := some t }.goto t (clearing nothrow)).Balanced := by
  refine h.pass ?_ ?_ (some t) ?_
  · rintro nh ⟨_, hclears⟩
    simp [hpc] at hclears
  · rintro nh ⟨_, hclears⟩
    simp at hclears
  · intro u hu
    by_cases heq : u = t
    · rw [heq]
    · rw [pc_goto_of_ne _ heq] at hu
      have htaken := h.locked u hu
      rw [hfree] at htaken
      simp at htaken

theorem release (h : machine.Balanced) {nothrow : Bool} {nh : Option H}
    (hpc : machine.pc t = unlocking nothrow nh) (hafter : ¬ pc.Locked) :
    ({ machine with lock := none }.goto t pc).Balanced := by
  have hlocked : (machine.pc t).Locked := by
    rw [hpc]
    trivial
  refine h.pass ?_ (fun _ hclears => hafter hclears.locked) none ?_
  · rintro nh ⟨_, hclears⟩
    simp [hpc] at hclears
  · intro u hu
    obtain ⟨hne, hu⟩ := locked_of_goto hafter hu
    exact absurd (h.unique hlocked hu) hne

omit [DecidableEq T] in
/-- While a thread has the lock, no other one is between its two calls. -/
theorem not_clears_of_ne (h : machine.Balanced) (hlocked : (machine.pc t).Locked) {u : T}
    (hne : u ≠ t) (nh : Option H) : ¬ (machine.pc u).Clears nh :=
  fun hclears => hne (h.unique hlocked hclears.locked)

/-- The thread with the lock goes on. -/
theorem lock_of_goto (h : machine.Balanced) (hlocked : (machine.pc t).Locked)
    {installed : Option H} {u : T}
    (hu : (({ machine with installed := installed }.goto t pc).pc u).Locked) :
    machine.lock = some u := by
  by_cases heq : u = t
  · rw [heq]
    exact h.locked t hlocked
  · rw [pc_goto_of_ne _ heq] at hu
    exact h.locked u hu

theorem clear (h : machine.Balanced) {nothrow : Bool} (hpc : machine.pc t = clearing nothrow) :
    ({ machine with installed := none }.goto t
      (restoring nothrow machine.installed)).Balanced := by
  have hlocked : (machine.pc t).Locked := by
    rw [hpc]
    trivial
  have hinstalled : machine.installed = machine.latest := by
    refine h.quiet ?_
    intro u nh hclears
    by_cases heq : u = t
    · subst heq
      obtain ⟨_, hclears⟩ := hclears
      simp [hpc] at hclears
    · exact h.not_clears_of_ne hlocked heq nh hclears
  refine ⟨fun u hu => h.lock_of_goto hlocked hu, ?_, ?_⟩
  · intro hquiet
    exact absurd ⟨nothrow, pc_goto_self ..⟩ (hquiet t machine.installed)
  · intro u nh hu
    by_cases heq : u = t
    · subst heq
      rw [pc_goto_self] at hu
      obtain ⟨_, hpc'⟩ := hu
      simp only [restoring.injEq] at hpc'
      exact .inl ⟨hpc'.2 ▸ hinstalled, rfl⟩
    · rw [pc_goto_of_ne _ heq] at hu
      exact absurd hu (h.not_clears_of_ne hlocked heq nh)

/-- After a restore no thread is between its two calls. -/
theorem quiet_restore (h : machine.Balanced) {nothrow : Bool} {nh : Option H}
    (hpc : machine.pc t = restoring nothrow nh) :
    ({ machine with installed := nh }.goto t (unlocking nothrow nh)).Quiet := by
  have hlocked : (machine.pc t).Locked := by
    rw [hpc]
    trivial
  intro u other hu
  by_cases heq : u = t
  · subst heq
    rw [pc_goto_self] at hu
    obtain ⟨_, hpc'⟩ := hu
    simp at hpc'
  · rw [pc_goto_of_ne _ heq] at hu
    exact h.not_clears_of_ne hlocked heq other hu

theorem restore (h : machine.Balanced) {nothrow : Bool} {nh : Option H}
    (hpc : machine.pc t = restoring nothrow nh) (hlatest : machine.latest = nh) :
    ({ machine with installed := nh }.goto t (unlocking nothrow nh)).Balanced := by
  have hlocked : (machine.pc t).Locked := by
    rw [hpc]
    trivial
  have hquiet := h.quiet_restore hpc
  exact ⟨fun u hu => h.lock_of_goto hlocked hu, fun _ => hlatest.symm,
    fun u other hu => absurd hu (hquiet u other)⟩

theorem advance (h : machine.Balanced) (t : T) (hspares : machine.Spares (.advance t)) :
    (machine.advance t).Balanced := by
  unfold NewHandlerMachine.advance
  cases hpc : machine.pc t with
  | locking nothrow =>
      simp only
      split
      next hfree => exact h.acquire hpc hfree
      next => exact h
  | clearing nothrow => exact h.clear hpc
  | restoring nothrow nh => exact h.restore hpc (hspares nh ⟨nothrow, hpc⟩)
  | unlocking nothrow nh =>
      cases nh with
      | none => exact h.release hpc id
      | some nh => exact h.release hpc id
  | idle => exact h
  | allocating nothrow => exact h
  | handling nothrow nh => exact h
  | returned outcome => exact h

theorem step (h : machine.Balanced) {event : NewHandlerEvent T H}
    (hspares : machine.Spares event) : (machine.step event).Balanced := by
  cases event with
  | call t nothrow =>
      simp only [NewHandlerMachine.step]
      split
      next hpc => exact h.move (by simp [hpc, Locked]) id
      next hpc => exact h.move (by simp [hpc, Locked]) id
      next => exact h
  | malloc t succeeds =>
      simp only [NewHandlerMachine.step]
      split
      next hpc => exact h.move (by simp [hpc, Locked]) (by split <;> exact id)
      next => exact h
  | advance t => exact h.advance t hspares
  | handled t throws =>
      simp only [NewHandlerMachine.step]
      split
      next hpc => exact h.move (by simp [hpc, Locked]) (by split <;> exact id)
      next => exact h
  | setNewHandler nh =>
      exact ⟨h.locked, fun _ => rfl, fun u other hu => .inr ⟨hspares u other hu, rfl⟩⟩

/-! ## The application's handler -/

theorem unchanged_of_spares (h : machine.Balanced) {event : NewHandlerEvent T H}
    (hspares : machine.Spares event) : machine.Unchanged event := by
  refine ⟨?_, (h.step hspares).quiet⟩
  intro hhanded
  cases event with
  | setNewHandler nh =>
      have hnull : machine.installed = none := Option.some_inj.mp hhanded
      by_cases hquiet : machine.Quiet
      · exact (h.quiet hquiet).symm.trans hnull
      · simp only [Quiet, not_forall, not_not] at hquiet
        obtain ⟨u, other, hclears⟩ := hquiet
        rcases h.cleared u other hclears with ⟨hlatest, -⟩ | ⟨-, hinstalled⟩
        · exact hlatest.symm.trans (hspares u other hclears)
        · exact hinstalled.symm.trans hnull
  | call t nothrow => simp [handed] at hhanded
  | malloc t succeeds => simp [handed] at hhanded
  | advance t => simp [handed] at hhanded
  | handled t throws => simp [handed] at hhanded

theorem spares_of_unchanged (h : machine.Balanced) {event : NewHandlerEvent T H}
    (hunchanged : machine.Unchanged event) : machine.Spares event := by
  cases event with
  | setNewHandler nh =>
      intro u other hclears
      rcases h.cleared u other hclears with ⟨hlatest, hnull⟩ | ⟨hnone, -⟩
      · exact hlatest.trans (hunchanged.1 (congrArg some hnull))
      · exact hnone
  | advance t =>
      rintro nh ⟨nothrow, hpc⟩
      have hstep : machine.step (.advance t) =
          { machine with installed := nh }.goto t (unlocking nothrow nh) := by
        simp only [NewHandlerMachine.step, NewHandlerMachine.advance, hpc]
      have hrestored := hunchanged.2 (hstep ▸ h.quiet_restore hpc)
      rw [hstep] at hrestored
      exact hrestored.symm
  | call t nothrow => trivial
  | malloc t succeeds => trivial
  | handled t throws => trivial

end Balanced

omit [DecidableEq T] in
theorem balanced_initial : (initial : NewHandlerMachine T H).Balanced :=
  ⟨fun _ hlocked => absurd hlocked id, fun _ => rfl, fun _ _ ⟨_, hpc⟩ => by simp [initial] at hpc⟩

/-- **The application's handler.**  For any number of threads and in every interleaving, failing
allocations leave the handler alone if and only if every call of the application between the
two steps of a thread finds the application without a handler, and without one again when the
thread puts back what it found. -/
theorem newHandler_unchanged_iff (events : List (NewHandlerEvent T H)) :
    Run.Along step Unchanged (initial : NewHandlerMachine T H) events ↔
      Run.Along step Spares (initial : NewHandlerMachine T H) events := by
  constructor
  · exact Run.Along.of_invariant (I := Balanced)
      (fun h hunchanged => h.step (h.spares_of_unchanged hunchanged))
      (fun h hunchanged => h.spares_of_unchanged hunchanged) balanced_initial
  · exact Run.Along.of_invariant (I := Balanced) (fun h hspares => h.step hspares)
      (fun h hspares => h.unchanged_of_spares hspares) balanced_initial

/-- The application replaces handler 1 by handler 2 between the two steps of a thread: it is
handed `NULL`, and afterwards handler 1 is installed. -/
theorem newHandler_lost :
    let events : List (NewHandlerEvent Unit ℕ) :=
      [.setNewHandler (some 1), .call () true, .malloc () false, .advance (), .advance (),
        .setNewHandler (some 2), .advance ()]
    ¬ Run.Along step Unchanged initial events ∧
      (events.foldl step initial).installed = some 1 ∧
      (events.foldl step initial).latest = some 2 := by
  refine ⟨?_, rfl, rfl⟩
  rintro ⟨-, -, -, -, -, hset, -⟩
  exact absurd (hset.1 rfl) (by decide)

end NewHandlerMachine

end Memhook
