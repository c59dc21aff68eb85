import Mathlib.Algebra.Order.BigOperators.Ring.Finset
import Memhook.Lib.Mutex
import Memhook.Lib.Run

/-!
# Interrupting a sleeper

`InterruptibleThread` of `src/memhook/thread.cpp`: `SleepUntil` and `SleepFor` test a flag and
wait on a condition variable, both under one mutex, and `Interrupt` stores the flag before it
takes the mutex and wakes all waiters.  Any number of threads sleep and interrupt at the same
time.  Every access to the flag and every call of a `pthread` function is one step; so is
`pthread_cond_timedwait` up to the moment it gives the mutex back, and from the moment it is
woken it is on its way to the mutex again.  A wait may end at any time, by its timeout or for
no reason.

Between the test of the flag and the wait the flag may be stored.  The interrupter is then on
its way to the mutex and cannot have woken anybody, since the sleeper holds the mutex until it
is a waiter.  That is the invariant: whoever missed the flag is still to be told (`Noticed`).
-/

namespace Memhook

/-- The next access of a thread. -/
inductive SleepPc
  /-- Outside; `Interrupt` stores the flag when it is called. -/
  | idle
  | interruptLock
  | interruptWakeUpAll
  | interruptUnlock
  | sleepLock
  /-- `IsInterruptionRequested`. -/
  | sleepTest
  /-- `pthread_cond_timedwait`, when it is called. -/
  | sleepWait
  | asleep
  /-- Inside `pthread_cond_timedwait`, on the way to the mutex. -/
  | woken (timedOut : Bool)
  /-- The destructor of the lock. -/
  | sleepUnlock (result : Bool)
  /-- Outside, and the last call was a sleep with this result. -/
  | returned (result : Bool)
  deriving DecidableEq

namespace SleepPc

/-- The thread holds the mutex. -/
def Inside : SleepPc → Prop
  | interruptWakeUpAll | interruptUnlock | sleepTest | sleepWait | sleepUnlock _ => True
  | _ => False

/-- The thread has made no call or has returned from it. -/
def AtRest : SleepPc → Prop
  | idle | returned _ => True
  | _ => False

/-- The thread did not see the flag and waits, or is going to. -/
def Missed : SleepPc → Prop
  | sleepWait | asleep => True
  | _ => False

/-- The thread stored the flag and has not woken the waiters yet. -/
def Telling : SleepPc → Prop
  | interruptLock | interruptWakeUpAll => True
  | _ => False

/-- The thread has seen the flag. -/
def Saw : SleepPc → Prop
  | sleepUnlock false | returned false => True
  | _ => False

/-- How many steps a thread is from its return, at most, once the flag is stored. -/
def work : SleepPc → ℕ
  | idle | returned _ => 0
  | interruptUnlock | sleepUnlock _ => 1
  | interruptWakeUpAll | sleepTest | woken true => 2
  | interruptLock | sleepLock | woken false => 3
  | asleep => 4
  | sleepWait => 5

instance (pc : SleepPc) : Decidable pc.AtRest := by
  cases pc <;> unfold AtRest <;> infer_instance

end SleepPc

structure InterruptibleThread (T : Type*) where
  interrupted : Bool
  sleepMutex : Mutex.State T
  pc : T → SleepPc
  /-- `EXPECT_SUCCEEDED` failed. -/
  aborted : Bool

inductive SleepEvent (T : Type*)
  /-- A call of `Interrupt`. -/
  | interrupt (t : T)
  /-- A call of `SleepUntil` or `SleepFor`. -/
  | sleep (t : T)
  | advance (t : T)
  /-- A wait is over without `WakeUpAll`. -/
  | wake (t : T) (timedOut : Bool)

namespace InterruptibleThread

variable {T : Type*} [DecidableEq T]

/-- The constructor. -/
def initial : InterruptibleThread T := ⟨false, .free, fun _ => .idle, false⟩

def goto (thread : InterruptibleThread T) (t : T) (pc : SleepPc) : InterruptibleThread T :=
  { thread with pc := Function.update thread.pc t pc }

@[simp] theorem pc_goto_self (thread : InterruptibleThread T) (t : T) (pc : SleepPc) :
    (thread.goto t pc).pc t = pc :=
  Function.update_self ..

theorem pc_goto_of_ne (thread : InterruptibleThread T) {t u : T} (h : u ≠ t) (pc : SleepPc) :
    (thread.goto t pc).pc u = thread.pc u :=
  Function.update_of_ne h ..

/-- `Mutex::Lock`: the thread goes on when it gets the mutex. -/
def lock (thread : InterruptibleThread T) (t : T) (pc : SleepPc) : InterruptibleThread T :=
  match Mutex.lock? t thread.sleepMutex with
  | none => thread
  | some sleepMutex => { thread.goto t pc with sleepMutex := sleepMutex }

/-- `Mutex::Unlock`. -/
def unlock (thread : InterruptibleThread T) (t : T) (pc : SleepPc) : InterruptibleThread T :=
  match Mutex.unlock? t thread.sleepMutex with
  | none => { thread with aborted := true }
  | some sleepMutex => { thread.goto t pc with sleepMutex := sleepMutex }

/-- `ConditionVariable::WakeUpAll`. -/
def wakeUpAll (thread : InterruptibleThread T) : InterruptibleThread T :=
  { thread with
    pc := fun t => if thread.pc t = .asleep then .woken false else thread.pc t }

/-- The next access of a thread in a call. -/
def advance (thread : InterruptibleThread T) (t : T) : InterruptibleThread T :=
  match thread.pc t with
  | .idle | .returned _ | .asleep => thread
  | .interruptLock => thread.lock t .interruptWakeUpAll
  | .interruptWakeUpAll => thread.wakeUpAll.goto t .interruptUnlock
  | .interruptUnlock => thread.unlock t .idle
  | .sleepLock => thread.lock t .sleepTest
  | .sleepTest => thread.goto t (if thread.interrupted then .sleepUnlock false else .sleepWait)
  | .sleepWait => thread.unlock t .asleep
  | .woken timedOut => thread.lock t (if timedOut then .sleepUnlock true else .sleepTest)
  | .sleepUnlock result => thread.unlock t (.returned result)

def step (thread : InterruptibleThread T) : SleepEvent T → InterruptibleThread T
  | .interrupt t =>
      if (thread.pc t).AtRest then { thread.goto t .interruptLock with interrupted := true }
      else thread
  | .sleep t => if (thread.pc t).AtRest then thread.goto t .sleepLock else thread
  | .advance t => thread.advance t
  | .wake t timedOut =>
      if thread.pc t = .asleep then thread.goto t (.woken timedOut) else thread

def run (thread : InterruptibleThread T) (events : List (SleepEvent T)) : InterruptibleThread T :=
  events.foldl step thread

/-! ## The invariant -/

/-- Whoever missed the flag is still to be told. -/
def Noticed (thread : InterruptibleThread T) : Prop :=
  thread.interrupted = true → (∃ t, (thread.pc t).Missed) → ∃ t, (thread.pc t).Telling

structure Invariant (thread : InterruptibleThread T) : Prop where
  guards : Mutex.Guards SleepPc.Inside thread.sleepMutex thread.pc
  noticed : thread.Noticed
  saw : ∀ t, (thread.pc t).Saw → thread.interrupted = true
  aborted : thread.aborted = false

variable {thread : InterruptibleThread T} {t : T} {pc : SleepPc}

omit [DecidableEq T] in
theorem invariant_initial : (initial : InterruptibleThread T).Invariant where
  guards := fun _ => not_false
  noticed := by simp [Noticed, initial]
  saw := fun _ => False.elim
  aborted := rfl

/-- A thread goes on and neither misses the flag nor stops telling, and says that it saw the
flag only if that is there. -/
structure Passes (thread : InterruptibleThread T) (t : T) (pc : SleepPc) : Prop where
  missed : pc.Missed → thread.interrupted = true → (thread.pc t).Missed
  telling : (thread.pc t).Telling → pc.Telling
  saw : pc.Saw → thread.interrupted = true

theorem Passes.noticed (h : thread.Passes t pc) (hnoticed : thread.Noticed) :
    (thread.goto t pc).Noticed := by
  rintro hinterrupted ⟨u, hu⟩
  have hbefore : ∃ v, (thread.pc v).Missed := by
    by_cases heq : u = t
    · rw [heq, pc_goto_self] at hu
      exact ⟨t, h.missed hu hinterrupted⟩
    · rw [pc_goto_of_ne thread heq] at hu
      exact ⟨u, hu⟩
  obtain ⟨v, hv⟩ := hnoticed hinterrupted hbefore
  refine ⟨v, ?_⟩
  by_cases heq : v = t
  · rw [heq, pc_goto_self]
    exact h.telling (heq ▸ hv)
  · rw [pc_goto_of_ne thread heq]
    exact hv

theorem Passes.saw_goto (h : thread.Passes t pc)
    (hsaw : ∀ u, (thread.pc u).Saw → thread.interrupted = true) :
    ∀ u, ((thread.goto t pc).pc u).Saw → thread.interrupted = true := by
  intro u hu
  by_cases heq : u = t
  · rw [heq, pc_goto_self] at hu
    exact h.saw hu
  · rw [pc_goto_of_ne thread heq] at hu
    exact hsaw u hu

namespace Invariant

theorem goto (h : thread.Invariant) (hpasses : thread.Passes t pc)
    (hborder : pc.Inside ↔ (thread.pc t).Inside) : (thread.goto t pc).Invariant where
  guards := h.guards.stay hborder
  noticed := hpasses.noticed h.noticed
  saw := hpasses.saw_goto h.saw
  aborted := h.aborted

theorem lock (h : thread.Invariant) (hpasses : thread.Passes t pc)
    (houtside : ¬ (thread.pc t).Inside) (hinside : pc.Inside) : (thread.lock t pc).Invariant := by
  unfold InterruptibleThread.lock
  split
  next => exact h
  next sleepMutex hlock =>
    exact ⟨h.guards.lock hlock houtside hinside, hpasses.noticed h.noticed,
      hpasses.saw_goto h.saw, h.aborted⟩

theorem unlock (h : thread.Invariant) (hpasses : thread.Passes t pc)
    (hinside : (thread.pc t).Inside) (houtside : ¬ pc.Inside) :
    (thread.unlock t pc).Invariant := by
  unfold InterruptibleThread.unlock
  rw [h.guards.unlock?_eq hinside]
  exact ⟨h.guards.unlock hinside houtside, hpasses.noticed h.noticed, hpasses.saw_goto h.saw,
    h.aborted⟩

/-- All waiters are told at once, and nobody else can have missed the flag. -/
theorem wakeUpAll (h : thread.Invariant) (hpc : thread.pc t = .interruptWakeUpAll) :
    (thread.wakeUpAll.goto t .interruptUnlock).Invariant := by
  have hself : thread.wakeUpAll.pc t = .interruptWakeUpAll := by
    simp [InterruptibleThread.wakeUpAll, hpc]
  have hinside : (thread.pc t).Inside := hpc ▸ trivial
  have hguards : Mutex.Guards SleepPc.Inside thread.sleepMutex thread.wakeUpAll.pc := by
    refine h.guards.congr fun u => ?_
    by_cases hasleep : thread.pc u = .asleep
    · simp [InterruptibleThread.wakeUpAll, hasleep, SleepPc.Inside]
    · simp [InterruptibleThread.wakeUpAll, hasleep]
  have hnobody : ∀ u, ¬ ((thread.wakeUpAll.goto t .interruptUnlock).pc u).Missed := by
    intro u hu
    by_cases heq : u = t
    · rw [heq, pc_goto_self] at hu
      exact hu
    · rw [pc_goto_of_ne _ heq] at hu
      by_cases hasleep : thread.pc u = .asleep
      · simp [InterruptibleThread.wakeUpAll, hasleep, SleepPc.Missed] at hu
      · -- the mutex is taken, so nobody is about to wait
        simp only [InterruptibleThread.wakeUpAll, hasleep, if_false] at hu
        have hwait : thread.pc u = .sleepWait := by
          cases hpcu : thread.pc u <;> simp_all [SleepPc.Missed]
        exact heq (h.guards.unique (hwait ▸ trivial) hinside)
  refine ⟨hguards.stay ?_, fun _ ⟨u, hu⟩ => absurd hu (hnobody u), ?_, h.aborted⟩
  · rw [hself]
    exact Iff.rfl
  · intro u hu
    by_cases heq : u = t
    · rw [heq, pc_goto_self] at hu
      exact hu.elim
    · rw [pc_goto_of_ne _ heq] at hu
      refine h.saw u ?_
      by_cases hasleep : thread.pc u = .asleep
      · simp [InterruptibleThread.wakeUpAll, hasleep, SleepPc.Saw] at hu
      · simpa [InterruptibleThread.wakeUpAll, hasleep] using hu

theorem advance (h : thread.Invariant) (t : T) : (thread.advance t).Invariant := by
  unfold InterruptibleThread.advance
  cases hpc : thread.pc t with
  | idle => exact h
  | returned result => exact h
  | asleep => exact h
  | interruptLock =>
      exact h.lock ⟨nofun, fun _ => trivial, nofun⟩ (hpc ▸ not_false) trivial
  | interruptWakeUpAll => exact h.wakeUpAll hpc
  | interruptUnlock =>
      exact h.unlock ⟨nofun, hpc ▸ nofun, nofun⟩ (hpc ▸ trivial) not_false
  | sleepLock => exact h.lock ⟨nofun, hpc ▸ nofun, nofun⟩ (hpc ▸ not_false) trivial
  | sleepTest =>
      cases hinterrupted : thread.interrupted with
      | true =>
          exact h.goto ⟨nofun, hpc ▸ nofun, fun _ => hinterrupted⟩ (hpc ▸ Iff.rfl)
      | false =>
          -- the flag is not there when the thread decides to wait
          have hnot : thread.interrupted ≠ true := by simp [hinterrupted]
          exact h.goto ⟨fun _ hflag => absurd hflag hnot, hpc ▸ nofun, nofun⟩ (hpc ▸ Iff.rfl)
  | sleepWait =>
      exact h.unlock ⟨fun _ _ => hpc ▸ trivial, hpc ▸ nofun, nofun⟩ (hpc ▸ trivial) not_false
  | woken timedOut =>
      cases timedOut with
      | true => exact h.lock ⟨nofun, hpc ▸ nofun, nofun⟩ (hpc ▸ not_false) trivial
      | false => exact h.lock ⟨nofun, hpc ▸ nofun, nofun⟩ (hpc ▸ not_false) trivial
  | sleepUnlock result =>
      cases result with
      | true => exact h.unlock ⟨nofun, hpc ▸ nofun, nofun⟩ (hpc ▸ trivial) not_false
      | false =>
          have hflag := h.saw t (hpc ▸ trivial)
          exact h.unlock ⟨nofun, hpc ▸ nofun, fun _ => hflag⟩ (hpc ▸ trivial) not_false

theorem step (h : thread.Invariant) (event : SleepEvent T) : (thread.step event).Invariant := by
  cases event with
  | advance t => exact h.advance t
  | interrupt t =>
      simp only [InterruptibleThread.step]
      split
      next hrest =>
        have hborder : SleepPc.interruptLock.Inside ↔ (thread.pc t).Inside := by
          cases hpc : thread.pc t <;> simp_all [SleepPc.AtRest, SleepPc.Inside]
        exact ⟨h.guards.stay hborder, fun _ _ => ⟨t, by simp [SleepPc.Telling]⟩,
          fun _ _ => rfl, h.aborted⟩
      next => exact h
  | sleep t =>
      simp only [InterruptibleThread.step]
      split
      next hrest =>
        refine h.goto ⟨nofun, ?_, nofun⟩ ?_
        · cases hpc : thread.pc t <;> simp_all [SleepPc.AtRest, SleepPc.Telling]
        · cases hpc : thread.pc t <;> simp_all [SleepPc.AtRest, SleepPc.Inside]
      next => exact h
  | wake t timedOut =>
      simp only [InterruptibleThread.step]
      split
      next hasleep => exact h.goto ⟨nofun, hasleep ▸ nofun, nofun⟩ (hasleep ▸ Iff.rfl)
      next => exact h

theorem run (h : thread.Invariant) (events : List (SleepEvent T)) :
    (thread.run events).Invariant :=
  Run.invariant (P := fun _ _ => True) (fun h _ => Invariant.step h _) h
    (.of_forall fun _ _ => trivial)

end Invariant

/-- **No interruption is lost.**  However sleepers and interrupters are interleaved: no call
aborts, at most one thread holds the mutex, and once the flag is stored and every interrupter
has woken the waiters, nobody waits or is about to wait.  A sleep says that it was interrupted
only if it was. -/
theorem interruption_not_lost (events : List (SleepEvent T)) :
    let thread : InterruptibleThread T := initial.run events
    thread.aborted = false ∧
      (∀ t u, (thread.pc t).Inside → (thread.pc u).Inside → t = u) ∧
      (thread.interrupted = true → (∀ t, ¬ (thread.pc t).Telling) →
        ∀ t, ¬ (thread.pc t).Missed) ∧
      ∀ t, thread.pc t = .returned false → thread.interrupted = true := by
  intro thread
  have h : thread.Invariant := invariant_initial.run events
  refine ⟨h.aborted, fun t u => h.guards.unique, ?_, ?_⟩
  · intro hinterrupted htelling t hmissed
    obtain ⟨u, hu⟩ := h.noticed hinterrupted ⟨t, hmissed⟩
    exact htelling u hu
  · intro t hreturned
    exact h.saw t (hreturned ▸ trivial)

/-! ## Every call returns -/

section Progress

variable [Fintype T]

/-- The steps that all calls together are from their returns, at most. -/
def work (thread : InterruptibleThread T) : ℕ := ∑ t, (thread.pc t).work

/-- The event is no new call, and something happens. -/
def Moves (thread : InterruptibleThread T) : SleepEvent T → Prop
  | .advance t => (thread.advance t).pc ≠ thread.pc
  | .wake t timedOut => (thread.step (.wake t timedOut)).pc ≠ thread.pc
  | .interrupt _ | .sleep _ => False

instance (thread : InterruptibleThread T) (event : SleepEvent T) :
    Decidable (thread.Moves event) :=
  match event with
  | .advance _ | .wake _ _ => inferInstanceAs (Decidable (_ ≠ _))
  | .interrupt _ | .sleep _ => inferInstanceAs (Decidable False)

omit [DecidableEq T] in
theorem work_lt {thread thread' : InterruptibleThread T} {t : T}
    (hle : ∀ u, (thread'.pc u).work ≤ (thread.pc u).work)
    (hlt : (thread'.pc t).work < (thread.pc t).work) : thread'.work < thread.work :=
  Finset.sum_lt_sum (fun u _ => hle u) ⟨t, Finset.mem_univ t, hlt⟩

theorem work_goto_lt (hlt : pc.work < (thread.pc t).work) :
    (thread.goto t pc).work < thread.work := by
  refine work_lt (t := t) (fun u => ?_) (by rwa [pc_goto_self])
  by_cases heq : u = t
  · rw [heq, pc_goto_self]
    exact hlt.le
  · rw [pc_goto_of_ne thread heq]

theorem lock_spec (hlt : pc.work < (thread.pc t).work) :
    (thread.lock t pc).pc = thread.pc ∨ (thread.lock t pc).work < thread.work := by
  unfold lock
  split
  · exact .inl rfl
  · exact .inr (work_goto_lt hlt)

theorem Invariant.unlock_lt (h : thread.Invariant) (hinside : (thread.pc t).Inside)
    (hlt : pc.work < (thread.pc t).work) : (thread.unlock t pc).work < thread.work := by
  unfold InterruptibleThread.unlock
  rw [h.guards.unlock?_eq hinside]
  exact work_goto_lt hlt

theorem work_wakeUpAll_lt (hpc : thread.pc t = .interruptWakeUpAll) :
    (thread.wakeUpAll.goto t .interruptUnlock).work < thread.work := by
  refine work_lt (t := t) (fun u => ?_) ?_
  · by_cases heq : u = t
    · rw [heq, pc_goto_self, hpc]
      decide
    · rw [pc_goto_of_ne _ heq]
      by_cases hasleep : thread.pc u = .asleep
      · simp [wakeUpAll, hasleep, SleepPc.work]
      · simp [wakeUpAll, hasleep]
  · rw [pc_goto_self, hpc]
    decide

/-- Once the flag is stored, whoever goes on comes closer to its return. -/
theorem Invariant.advance_spec (h : thread.Invariant) (hflag : thread.interrupted = true) (t : T) :
    (thread.advance t).pc = thread.pc ∨ (thread.advance t).work < thread.work := by
  unfold InterruptibleThread.advance
  cases hpc : thread.pc t with
  | idle => exact .inl rfl
  | returned result => exact .inl rfl
  | asleep => exact .inl rfl
  | interruptLock => exact lock_spec (by rw [hpc]; decide)
  | interruptWakeUpAll => exact .inr (work_wakeUpAll_lt hpc)
  | interruptUnlock => exact .inr (h.unlock_lt (hpc ▸ trivial) (by rw [hpc]; decide))
  | sleepLock => exact lock_spec (by rw [hpc]; decide)
  | sleepTest =>
      -- the test succeeds, so nobody goes to wait
      simp only [hflag, if_true]
      exact .inr (work_goto_lt (by rw [hpc]; decide))
  | sleepWait => exact .inr (h.unlock_lt (hpc ▸ trivial) (by rw [hpc]; decide))
  | woken timedOut =>
      cases timedOut with
      | true => exact lock_spec (by rw [hpc]; decide)
      | false => exact lock_spec (by rw [hpc]; decide)
  | sleepUnlock result =>
      exact .inr (h.unlock_lt (hpc ▸ trivial) (by rw [hpc]; simp [SleepPc.work]))

theorem Invariant.work_step_lt (h : thread.Invariant) (hflag : thread.interrupted = true)
    {event : SleepEvent T} (hmoves : thread.Moves event) :
    (thread.step event).work < thread.work := by
  cases event with
  | interrupt t => exact hmoves.elim
  | sleep t => exact hmoves.elim
  | advance t => exact (h.advance_spec hflag t).resolve_left hmoves
  | wake t timedOut =>
      simp only [Moves, InterruptibleThread.step] at hmoves ⊢
      split at hmoves
      next hasleep =>
        rw [if_pos hasleep]
        refine work_goto_lt ?_
        cases timedOut <;> rw [hasleep] <;> decide
      next => exact absurd rfl hmoves

omit [Fintype T] in
/-- The flag stays. -/
theorem interrupted_step (hflag : thread.interrupted = true) (event : SleepEvent T) :
    (thread.step event).interrupted = true := by
  have hlock : ∀ t pc, (thread.lock t pc).interrupted = thread.interrupted := by
    intro t pc
    unfold lock
    split <;> rfl
  have hunlock : ∀ t pc, (thread.unlock t pc).interrupted = thread.interrupted := by
    intro t pc
    unfold unlock
    split <;> rfl
  have hadvance : ∀ t, (thread.advance t).interrupted = thread.interrupted := by
    intro t
    unfold advance
    split <;> first | rfl | exact hlock _ _ | exact hunlock _ _
  cases event with
  | advance t => exact (hadvance t).trans hflag
  | _ =>
      simp only [step]
      split <;> first | exact hflag | rfl

/-- While the flag is stored, a run that always moves uses the work up. -/
theorem length_add_work_le {events : List (SleepEvent T)} (h : thread.Invariant)
    (hflag : thread.interrupted = true) (hmoves : Run.Along step Moves thread events) :
    events.length + (thread.run events).work ≤ thread.work := by
  induction events generalizing thread with
  | nil => simp [run]
  | cons event rest ih =>
      have hlt := h.work_step_lt hflag hmoves.1
      have hrest := ih (h.step event) (interrupted_step hflag event) hmoves.2
      simp only [run, List.foldl_cons, List.length_cons] at hrest ⊢
      omega

omit [DecidableEq T] in
theorem work_le (thread : InterruptibleThread T) : thread.work ≤ 5 * Fintype.card T := by
  have hle : ∀ t ∈ Finset.univ, (thread.pc t).work ≤ 5 := by
    intro t _
    cases hpc : thread.pc t with
    | woken timedOut => cases timedOut <;> simp [SleepPc.work]
    | _ => simp [SleepPc.work]
  calc thread.work
      ≤ Finset.univ.card • 5 := Finset.sum_le_card_nsmul _ _ _ hle
    _ = 5 * Fintype.card T := by rw [Finset.card_univ, nsmul_eq_mul, Nat.cast_id, Nat.mul_comm]

omit [Fintype T] in
/-- Who is inside goes on, and so does who wants the mutex while nobody is inside. -/
theorem Invariant.pc_advance_ne (h : thread.Invariant) (hrest : ¬ (thread.pc t).AtRest)
    (hasleep : thread.pc t ≠ .asleep)
    (hfree : (thread.pc t).Inside ∨ ∀ u, ¬ (thread.pc u).Inside) :
    (thread.advance t).pc ≠ thread.pc := by
  have hgoto : ∀ {thread' : InterruptibleThread T} {pc : SleepPc}, pc ≠ thread.pc t →
      thread'.pc t = pc → thread'.pc ≠ thread.pc := by
    intro thread' pc hne hpc hsame
    exact hne (hpc.symm.trans (congrFun hsame t))
  have hlock : ∀ pc, ¬ (thread.pc t).Inside → (thread.lock t pc).pc t = pc := by
    intro pc houtside
    unfold InterruptibleThread.lock
    split
    next hnone =>
      obtain ⟨u, hu⟩ := h.guards.exists_inside hnone
      exact absurd hu (hfree.resolve_left houtside u)
    next => exact pc_goto_self thread t pc
  have hunlock : ∀ pc, (thread.pc t).Inside → (thread.unlock t pc).pc t = pc := by
    intro pc hinside
    unfold InterruptibleThread.unlock
    rw [h.guards.unlock?_eq hinside]
    exact pc_goto_self thread t pc
  unfold InterruptibleThread.advance
  cases hpc : thread.pc t with
  | idle => exact absurd (hpc ▸ trivial) hrest
  | returned result => exact absurd (hpc ▸ trivial) hrest
  | asleep => exact absurd hpc hasleep
  | interruptLock => exact hgoto (by simp [hpc]) (hlock _ (hpc ▸ not_false))
  | interruptWakeUpAll => exact hgoto (by simp [hpc]) (pc_goto_self ..)
  | interruptUnlock => exact hgoto (by simp [hpc]) (hunlock _ (hpc ▸ trivial))
  | sleepLock => exact hgoto (by simp [hpc]) (hlock _ (hpc ▸ not_false))
  | sleepTest =>
      refine hgoto ?_ (pc_goto_self ..)
      rw [hpc]
      split <;> simp
  | sleepWait => exact hgoto (by simp [hpc]) (hunlock _ (hpc ▸ trivial))
  | woken timedOut =>
      refine hgoto ?_ (hlock _ (hpc ▸ not_false))
      rw [hpc]
      split <;> simp
  | sleepUnlock result => exact hgoto (by simp [hpc]) (hunlock _ (hpc ▸ trivial))

omit [Fintype T] in
/-- Nothing is stuck before all calls have returned. -/
theorem Invariant.atRest_of_stuck (h : thread.Invariant) (hflag : thread.interrupted = true)
    (hstuck : ∀ t, (thread.advance t).pc = thread.pc) (t : T) : (thread.pc t).AtRest := by
  have hnobody : ∀ u, ¬ (thread.pc u).Inside := by
    intro u hu
    refine h.pc_advance_ne ?_ ?_ (.inl hu) (hstuck u)
    · cases hpc : thread.pc u <;> simp_all [SleepPc.Inside, SleepPc.AtRest]
    · rintro hpc
      rw [hpc] at hu
      exact hu
  have hawake : ∀ u, thread.pc u ≠ .asleep → (thread.pc u).AtRest := by
    intro u hasleep
    by_contra hrest
    exact h.pc_advance_ne hrest hasleep (.inr hnobody) (hstuck u)
  by_cases hasleep : thread.pc t = .asleep
  · -- somebody is on the way to wake this one
    obtain ⟨u, hu⟩ := h.noticed hflag ⟨t, hasleep ▸ trivial⟩
    have hne : thread.pc u ≠ .asleep := by
      intro hpc
      rw [hpc] at hu
      exact hu
    have hrest := hawake u hne
    cases hpc : thread.pc u <;> simp_all [SleepPc.Telling, SleepPc.AtRest]
  · exact hawake t hasleep

/-- **After an interruption every call returns.**  Once the flag is stored, a run without new
calls in which always something happens has at most five steps for each thread, however it is
scheduled and without any timeout; and as long as a call has not returned, some thread can go
on. -/
theorem calls_return_after_interrupt (events : List (SleepEvent T))
    (hflag : (initial.run events : InterruptibleThread T).interrupted = true)
    (later : List (SleepEvent T)) (hmoves : Run.Along step Moves (initial.run events) later) :
    later.length ≤ 5 * Fintype.card T ∧
      ((∀ t, (((initial.run events).run later).advance t).pc =
          ((initial.run events).run later).pc) →
        ∀ t, (((initial.run events).run later).pc t).AtRest) := by
  have h : (initial.run events : InterruptibleThread T).Invariant := invariant_initial.run events
  constructor
  · have hlength := length_add_work_le h hflag hmoves
    have hwork := work_le (initial.run events : InterruptibleThread T)
    omega
  · intro hstuck
    have hlater : ((initial.run events).run later : InterruptibleThread T).interrupted = true :=
      Run.invariant (I := fun thread => thread.interrupted = true) (P := Moves)
        (fun hflag _ => interrupted_step hflag _) hflag hmoves
    exact (h.run later).atRest_of_stuck hlater hstuck

end Progress

/-- A thread waits, and another one stores the flag. -/
def sleepThenInterrupt : List (SleepEvent Bool) :=
  [.sleep false, .advance false, .advance false, .advance false, .interrupt true]

def wakeAndReturn : List (SleepEvent Bool) :=
  List.replicate 3 (.advance true) ++ List.replicate 3 (.advance false)

theorem calls_return_after_wakeAndReturn :
    (initial.run sleepThenInterrupt).pc false = .asleep ∧
      wakeAndReturn.length ≤ 5 * Fintype.card Bool ∧
      ((initial.run sleepThenInterrupt).run wakeAndReturn).pc false = .returned false ∧
      ((initial.run sleepThenInterrupt).run wakeAndReturn).pc true = .idle :=
  ⟨by decide, (calls_return_after_interrupt sleepThenInterrupt (by decide) wakeAndReturn
    (by decide)).1, by decide, by decide⟩

end InterruptibleThread

end Memhook
