import Mathlib.Data.Fintype.Prod
import Memhook.Lib.Mutex
import Memhook.Lib.Run
import Memhook.Lib.Threads

/-!
# Lock objects

`MutexLock` of `src/memhook/thread.h` holds a recursive `Mutex` or not, and can be moved, assigned
and swapped.  Any number of objects of any threads share any number of mutexes.  An operation is
done, or its thread has to wait, or it fails: `MEMHOOK_EXPECT` of `Mutex::Unlock` ends the process
if somebody else has the mutex, and so does a lock on a null mutex.

The objects belong to threads, as local variables do.  What is proved is that the depth of each
mutex is then the number of the objects that say they own it: no operation fails, and nothing is
left locked when the objects are gone.
-/

namespace Memhook

/-- `m_mutex` and `m_is_locked`; the latter is never set without a mutex. -/
inductive MutexLock (M : Type*)
  | detached
  | attached (mutex : M) (isLocked : Bool)
  deriving DecidableEq

/-- What becomes of an operation. -/
inductive LockOutcome (σ : Type*)
  | done (state : σ)
  | waits
  | fails

def LockOutcome.bind {σ : Type*} (outcome : LockOutcome σ) (next : σ → LockOutcome σ) :
    LockOutcome σ :=
  match outcome with
  | done state => next state
  | waits => waits
  | fails => fails

/-- The mutexes, and the objects that are there. -/
structure LockObjects (M O T : Type*) where
  mutexes : M → Mutex.State T
  objects : O → Option (MutexLock M)

/-- The constructors, the assignment, the destructor and the other operations of an object. -/
inductive LockOp (M O : Type*)
  | construct (object : O)
  | constructLocked (object : O) (mutex : M)
  | constructFrom (object source : O)
  | assign (object source : O)
  | destroy (object : O)
  | lock (object : O)
  | unlock (object : O)
  | swap (object other : O)

namespace LockObjects

variable {M O T : Type*} [DecidableEq M] [DecidableEq O] [DecidableEq T]

def set (object : O) (slot : Option (MutexLock M)) (state : LockObjects M O T) :
    LockObjects M O T :=
  { state with objects := Function.update state.objects object slot }

omit [DecidableEq M] [DecidableEq T] in
@[simp] theorem objects_set_self (object : O) (slot : Option (MutexLock M))
    (state : LockObjects M O T) : (state.set object slot).objects object = slot :=
  Function.update_self ..

omit [DecidableEq M] [DecidableEq T] in
theorem objects_set_of_ne {object other : O} (h : other ≠ object) (slot : Option (MutexLock M))
    (state : LockObjects M O T) : (state.set object slot).objects other = state.objects other :=
  Function.update_of_ne h ..

/-- `Lock`. -/
def lock (t : T) (object : O) (state : LockObjects M O T) : LockOutcome (LockObjects M O T) :=
  match state.objects object with
  | none | some .detached => .fails
  | some (.attached _ true) => .done state
  | some (.attached m false) =>
      match Mutex.lock? t (state.mutexes m) with
      | none => .waits
      | some mutex =>
          .done ({ state with mutexes := Function.update state.mutexes m mutex }.set object
            (some (.attached m true)))

/-- `Unlock`. -/
def unlock (t : T) (object : O) (state : LockObjects M O T) : LockOutcome (LockObjects M O T) :=
  match state.objects object with
  | none => .fails
  | some .detached | some (.attached _ false) => .done state
  | some (.attached m true) =>
      match Mutex.unlock? t (state.mutexes m) with
      | none => .fails
      | some mutex =>
          .done ({ state with mutexes := Function.update state.mutexes m mutex }.set object
            (some (.attached m false)))

/-- The members of the source are copied, and the source is cleared. -/
def take (object source : O) (state : LockObjects M O T) : LockOutcome (LockObjects M O T) :=
  match state.objects source with
  | none => .fails
  | some lock => .done ((state.set object (some lock)).set source (some .detached))

def exec (t : T) (state : LockObjects M O T) : LockOp M O → LockOutcome (LockObjects M O T)
  | .construct object =>
      if (state.objects object).isSome then .fails
      else .done (state.set object (some .detached))
  | .constructLocked object m =>
      if (state.objects object).isSome then .fails
      else (state.set object (some (.attached m false))).lock t object
  | .constructFrom object source =>
      if (state.objects object).isSome then .fails else state.take object source
  | .assign object source => (state.unlock t object).bind (take object source)
  | .destroy object => (state.unlock t object).bind fun state => .done (state.set object none)
  | .lock object => state.lock t object
  | .unlock object => state.unlock t object
  | .swap object other =>
      match state.objects object, state.objects other with
      | some lock, some lock' => .done ((state.set object (some lock')).set other (some lock))
      | _, _ => .fails

/-- An operation that has to wait is tried again later. -/
def step (state : LockObjects M O T) (event : T × LockOp M O) : LockObjects M O T :=
  match state.exec event.1 event.2 with
  | .done state' => state'
  | .waits | .fails => state

def initial : LockObjects M O T := ⟨fun _ => .free, fun _ => none⟩

/-- The objects are of the thread, those to be made are not there and the others are, and an
object is locked only if it has a mutex. -/
def Proper (home : O → T) (t : T) (state : LockObjects M O T) : LockOp M O → Prop
  | .construct object | .constructLocked object _ =>
      home object = t ∧ state.objects object = none
  | .constructFrom object source =>
      home object = t ∧ home source = t ∧ state.objects object = none ∧
        (state.objects source).isSome
  | .assign object source | .swap object source =>
      home object = t ∧ home source = t ∧ (state.objects object).isSome ∧
        (state.objects source).isSome
  | .destroy object | .unlock object => home object = t ∧ (state.objects object).isSome
  | .lock object =>
      home object = t ∧ ∃ m isLocked, state.objects object = some (.attached m isLocked)

/-! ## The depth of a mutex -/

/-- How often its owner has entered the mutex. -/
def depth : Mutex.State T → ℕ
  | .free => 0
  | .held _ again => again + 1

variable [Fintype O]

/-- How many objects say that they own the mutex. -/
def held (state : LockObjects M O T) (m : M) : ℕ :=
  Threads.census (· = some (.attached m true)) state.objects

/-- A mutex is entered as often as objects own it, and these are its owner's. -/
structure Accounted (home : O → T) (state : LockObjects M O T) : Prop where
  depth_eq : ∀ m, depth (state.mutexes m) = state.held m
  homes : ∀ m owner again, state.mutexes m = .held owner again →
    ∀ object, state.objects object = some (.attached m true) → home object = owner

variable {home : O → T} {state state' : LockObjects M O T} {t : T} {object source : O}

omit [DecidableEq T] in
theorem held_set (state : LockObjects M O T) (object : O) (slot : Option (MutexLock M)) (m : M) :
    (state.set object slot).held m +
        (if state.objects object = some (.attached m true) then 1 else 0) =
      state.held m + if slot = some (.attached m true) then 1 else 0 :=
  Threads.census_update ..

omit [DecidableEq O] [DecidableEq T] in
theorem accounted_initial : Accounted home (initial : LockObjects M O T) where
  depth_eq _ := (Threads.census_eq_zero fun _ => nofun).symm
  homes := nofun

omit [DecidableEq O] [DecidableEq T] in
/-- The owning is passed around among objects of one thread. -/
theorem Accounted.of_held (h : state.Accounted home) (hmutexes : state'.mutexes = state.mutexes)
    (hheld : ∀ m, state'.held m = state.held m)
    (hhomes : ∀ object m, state'.objects object = some (.attached m true) →
      ∃ other, state.objects other = some (.attached m true) ∧ home other = home object) :
    state'.Accounted home where
  depth_eq m := by rw [hmutexes, hheld, h.depth_eq]
  homes m owner again hmutex object hobject := by
    obtain ⟨other, hother, hhome⟩ := hhomes object m hobject
    rw [← hhome]
    exact h.homes m owner again (hmutexes ▸ hmutex) other hother

omit [DecidableEq O] [DecidableEq T] in
theorem Accounted.pos (h : state.Accounted home) {m : M}
    (howns : state.objects object = some (.attached m true)) : 0 < depth (state.mutexes m) := by
  rw [h.depth_eq]
  exact Threads.census_pos howns

omit [DecidableEq T] in
/-- A slot without a locked object is filled with another one. -/
theorem Accounted.set (h : state.Accounted home) {slot : Option (MutexLock M)}
    (hbefore : ∀ m, state.objects object ≠ some (.attached m true))
    (hafter : ∀ m, slot ≠ some (.attached m true)) : (state.set object slot).Accounted home := by
  refine h.of_held rfl ?_ ?_
  · intro m
    have hcount := held_set state object slot m
    rwa [if_neg (hbefore m), if_neg (hafter m)] at hcount
  · intro other m hother
    by_cases hsame : other = object
    · rw [hsame, objects_set_self] at hother
      exact absurd hother (hafter m)
    · rw [objects_set_of_ne hsame] at hother
      exact ⟨other, hother, rfl⟩

/-! ## The operations -/

omit [DecidableEq T] in
/-- The object gets the mutex, or gives it back. -/
theorem Accounted.change (h : state.Accounted home) {m : M} {mutex : Mutex.State T}
    (isLocked : Bool) (hobject : state.objects object = some (.attached m !isLocked))
    (hdepth : depth mutex + (if isLocked then 0 else 1) =
      depth (state.mutexes m) + if isLocked then 1 else 0)
    (howner : ∀ owner again, mutex = .held owner again →
      owner = home object ∧ ∀ owner' again', state.mutexes m = .held owner' again' →
        owner' = owner) :
    ({ state with mutexes := Function.update state.mutexes m mutex }.set object
      (some (.attached m isLocked))).Accounted home where
  depth_eq m' := by
    have hcount := held_set { state with mutexes := Function.update state.mutexes m mutex } object
      (some (.attached m isLocked)) m'
    have hbefore : _ = ({ state with mutexes := Function.update state.mutexes m mutex } :
      LockObjects M O T).held m' := h.depth_eq m'
    rw [← hbefore, hobject] at hcount
    show depth (Function.update state.mutexes m mutex m') = _
    by_cases hm : m' = m
    · subst hm
      rw [Function.update_self]
      cases isLocked with
      | true =>
          simp only [Bool.not_true, Option.some.injEq, MutexLock.attached.injEq, true_and,
            Bool.false_eq_true, if_true, if_false] at hcount hdepth
          omega
      | false =>
          simp only [Bool.not_false, Option.some.injEq, MutexLock.attached.injEq, true_and,
            Bool.false_eq_true, if_true, if_false] at hcount hdepth
          omega
    · have hother : ∀ value, (some (.attached m value) : Option (MutexLock M)) ≠
          some (.attached m' true) := by
        rintro value heq
        exact hm (by simp_all)
      rw [Function.update_of_ne hm]
      rw [if_neg (hother _), if_neg (hother _)] at hcount
      exact hcount.symm
  homes m' owner again hmutex other hother := by
    replace hmutex : Function.update state.mutexes m mutex m' = .held owner again := hmutex
    by_cases hsame : other = object
    · rw [hsame, objects_set_self] at hother
      obtain rfl : m = m' := by simp_all
      rw [Function.update_self] at hmutex
      rw [hsame]
      exact (howner owner again hmutex).1.symm
    · rw [objects_set_of_ne hsame] at hother
      by_cases hm : m' = m
      · subst hm
        rw [Function.update_self] at hmutex
        -- another object owns it already, so it was held before
        cases hbefore : state.mutexes m' with
        | free =>
            have hpos := h.pos hother
            rw [hbefore] at hpos
            exact absurd hpos (Nat.lt_irrefl 0)
        | held owner' again' =>
            rw [h.homes m' owner' again' hbefore other hother]
            exact (howner owner again hmutex).2 owner' again' hbefore
      · rw [Function.update_of_ne hm] at hmutex
        exact h.homes m' owner again hmutex other hother

/-- `Lock` does not fail. -/
theorem Accounted.lock (h : state.Accounted home) {m : M} {isLocked : Bool}
    (hobject : state.objects object = some (.attached m isLocked)) :
    state.lock (home object) object = .waits ∨
      ∃ state', state.lock (home object) object = .done state' ∧ state'.Accounted home := by
  unfold LockObjects.lock
  rw [hobject]
  cases isLocked with
  | true => exact .inr ⟨state, rfl, h⟩
  | false =>
      dsimp only
      cases hlock : Mutex.lock? (home object) (state.mutexes m) with
      | none => exact .inl rfl
      | some mutex =>
          refine .inr ⟨_, rfl, h.change true hobject ?_ ?_⟩
          · rcases Mutex.of_lock?_eq_some hlock with ⟨hfree, rfl⟩ | ⟨again, hheld, rfl⟩
            · simp [depth, hfree]
            · simp [depth, hheld]
          · rcases Mutex.of_lock?_eq_some hlock with ⟨hfree, rfl⟩ | ⟨again, hheld, rfl⟩
            · simp [hfree]
            · simp +contextual [hheld]

/-- `Unlock` does not fail, and leaves an object that does not own its mutex. -/
theorem Accounted.unlock (h : state.Accounted home) (hobject : (state.objects object).isSome) :
    ∃ state', state.unlock (home object) object = .done state' ∧ state'.Accounted home ∧
      (∀ m, state'.objects object ≠ some (.attached m true)) ∧
      ∀ other, (state'.objects other).isSome = (state.objects other).isSome := by
  obtain ⟨slot, hslot⟩ := Option.isSome_iff_exists.mp hobject
  unfold LockObjects.unlock
  rw [hslot]
  rcases slot with _ | ⟨m, _ | _⟩
  · exact ⟨state, rfl, h, by simp [hslot], fun _ => rfl⟩
  · exact ⟨state, rfl, h, by simp [hslot], fun _ => rfl⟩
  · have hpos := h.pos hslot
    cases hmutex : state.mutexes m with
    | free =>
        rw [hmutex] at hpos
        exact absurd hpos (Nat.lt_irrefl 0)
    | held owner again =>
        obtain rfl := h.homes m owner again hmutex object hslot
        have hothers : ∀ (mutexes : M → Mutex.State T) other,
            (((⟨mutexes, state.objects⟩ : LockObjects M O T).set object
              (some (.attached m false))).objects other).isSome =
                (state.objects other).isSome := by
          intro mutexes other
          by_cases hsame : other = object
          · rw [hsame, objects_set_self, hslot]
            rfl
          · rw [objects_set_of_ne hsame]
        dsimp only
        rw [hmutex]
        cases again with
        | zero =>
            rw [show Mutex.unlock? (home object) (.held (home object) 0) = some .free by
              simp [Mutex.unlock?]]
            refine ⟨_, rfl, h.change false hslot ?_ (by simp), by simp, hothers _⟩
            simp [depth, hmutex]
        | succ again =>
            rw [show Mutex.unlock? (home object) (.held (home object) (again + 1)) =
              some (.held (home object) again) by simp [Mutex.unlock?]]
            refine ⟨_, rfl, h.change false hslot ?_ ?_, by simp, hothers _⟩
            · simp [depth, hmutex]
            · simp +contextual [hmutex]

omit [DecidableEq T] in
/-- What one object owned, another one of the same thread owns. -/
theorem Accounted.take (h : state.Accounted home) (hhome : home object = home source)
    (hbefore : ∀ m, state.objects object ≠ some (.attached m true))
    (hsource : (state.objects source).isSome) :
    ∃ state', state.take object source = .done state' ∧ state'.Accounted home := by
  obtain ⟨slot, hslot⟩ := Option.isSome_iff_exists.mp hsource
  unfold LockObjects.take
  rw [hslot]
  refine ⟨_, rfl, h.of_held rfl ?_ ?_⟩
  · intro m
    have hfirst := held_set state object (some slot) m
    have hsecond := held_set (state.set object (some slot)) source (some .detached) m
    have hsame : (state.set object (some slot)).objects source = some slot := by
      by_cases heq : source = object
      · rw [heq, objects_set_self]
      · rw [objects_set_of_ne heq, hslot]
    rw [if_neg (hbefore m)] at hfirst
    have hdetached : (some .detached : Option (MutexLock M)) ≠ some (.attached m true) := by simp
    rw [hsame, if_neg hdetached] at hsecond
    omega
  · intro other m hother
    by_cases hcleared : other = source
    · rw [hcleared, objects_set_self] at hother
      simp at hother
    · rw [objects_set_of_ne hcleared] at hother
      by_cases hsame : other = object
      · rw [hsame, objects_set_self] at hother
        exact ⟨source, hslot.trans hother, by rw [hsame, hhome]⟩
      · rw [objects_set_of_ne hsame] at hother
        exact ⟨other, hother, rfl⟩

omit [DecidableEq T] in
theorem Accounted.swap (h : state.Accounted home) {other : O} (hhome : home object = home other)
    {slot slot' : MutexLock M} (hobject : state.objects object = some slot)
    (hother : state.objects other = some slot') :
    ((state.set object (some slot')).set other (some slot)).Accounted home := by
  refine h.of_held rfl ?_ ?_
  · intro m
    have hfirst := held_set state object (some slot') m
    have hsecond := held_set (state.set object (some slot')) other (some slot) m
    have hsame : (state.set object (some slot')).objects other = some slot' := by
      by_cases heq : other = object
      · rw [heq, objects_set_self]
      · rw [objects_set_of_ne heq, hother]
    rw [hobject] at hfirst
    rw [hsame] at hsecond
    omega
  · intro user m huser
    by_cases hsecond : user = other
    · rw [hsecond, objects_set_self] at huser
      exact ⟨object, hobject.trans huser, by rw [hsecond, hhome]⟩
    · rw [objects_set_of_ne hsecond] at huser
      by_cases hfirst : user = object
      · rw [hfirst, objects_set_self] at huser
        exact ⟨other, hother.trans huser, by rw [hfirst, hhome]⟩
      · rw [objects_set_of_ne hfirst] at huser
        exact ⟨user, huser, rfl⟩

/-- One operation. -/
theorem Accounted.exec (h : state.Accounted home) {op : LockOp M O}
    (hproper : state.Proper home t op) :
    state.exec t op = .waits ∨
      ∃ state', state.exec t op = .done state' ∧ state'.Accounted home := by
  cases op with
  | construct object =>
      obtain ⟨-, hnone⟩ := hproper
      refine .inr ⟨_, if_neg (by simp [hnone]), h.set ?_ ?_⟩ <;> simp [hnone]
  | constructLocked object m =>
      obtain ⟨rfl, hnone⟩ := hproper
      have hnew : (state.set object (some (.attached m false))).Accounted home := by
        refine h.set ?_ ?_ <;> simp [hnone]
      rw [LockObjects.exec, if_neg (by simp [hnone])]
      exact hnew.lock (objects_set_self ..)
  | constructFrom object source =>
      obtain ⟨rfl, hhome, hnone, hsource⟩ := hproper
      rw [LockObjects.exec, if_neg (by simp [hnone])]
      exact .inr (h.take hhome.symm (by simp [hnone]) hsource)
  | assign object source =>
      obtain ⟨rfl, hhome, hobject, hsource⟩ := hproper
      obtain ⟨between, hunlock, haccounted, hunlocked, hthere⟩ := h.unlock hobject
      rw [LockObjects.exec, hunlock]
      exact .inr (haccounted.take hhome.symm hunlocked ((hthere source).trans hsource))
  | destroy object =>
      obtain ⟨rfl, hobject⟩ := hproper
      obtain ⟨between, hunlock, haccounted, hunlocked, -⟩ := h.unlock hobject
      rw [LockObjects.exec, hunlock]
      exact .inr ⟨_, rfl, haccounted.set hunlocked (by simp)⟩
  | lock object =>
      obtain ⟨rfl, m, isLocked, hobject⟩ := hproper
      exact h.lock hobject
  | unlock object =>
      obtain ⟨rfl, hobject⟩ := hproper
      obtain ⟨state', hunlock, haccounted, -⟩ := h.unlock hobject
      exact .inr ⟨state', hunlock, haccounted⟩
  | swap object other =>
      obtain ⟨rfl, hhome, hobject, hother⟩ := hproper
      obtain ⟨slot, hslot⟩ := Option.isSome_iff_exists.mp hobject
      obtain ⟨slot', hslot'⟩ := Option.isSome_iff_exists.mp hother
      refine .inr ⟨_, ?_, h.swap hhome.symm hslot hslot'⟩
      simp only [LockObjects.exec, hslot, hslot']

theorem Accounted.step (h : state.Accounted home) {event : T × LockOp M O}
    (hproper : state.Proper home event.1 event.2) : (state.step event).Accounted home := by
  unfold LockObjects.step
  rcases h.exec hproper with hwaits | ⟨state', hdone, haccounted⟩
  · rw [hwaits]
    exact h
  · rw [hdone]
    exact haccounted

/-- **Lock objects are balanced.**  In every interleaving in which the threads use objects of their
own, no operation fails: nobody unlocks a mutex that somebody else has.  A mutex is entered as often
as objects own it, two owners of one mutex are of one thread, and when no object is left, no mutex
is locked. -/
theorem lock_objects_balanced (home : O → T) (events : List (T × LockOp M O))
    (hproper : Run.Along step (fun state event => state.Proper home event.1 event.2) initial
      events) :
    let state := events.foldl step initial
    (∀ t op, state.Proper home t op → state.exec t op ≠ .fails) ∧
      (∀ m, depth (state.mutexes m) = state.held m) ∧
      (∀ m object other, state.objects object = some (.attached m true) →
        state.objects other = some (.attached m true) → home object = home other) ∧
      ((∀ object, state.objects object = none) → ∀ m, state.mutexes m = .free) := by
  intro state
  have h : state.Accounted home :=
    Run.invariant (fun h hevent => h.step hevent) accounted_initial hproper
  refine ⟨?_, h.depth_eq, ?_, ?_⟩
  · intro t op hop
    rcases h.exec hop with hwaits | ⟨state', hdone, -⟩
    · rw [hwaits]
      exact nofun
    · rw [hdone]
      exact nofun
  · intro m object other hobject hother
    have hpos := h.pos hobject
    cases hmutex : state.mutexes m with
    | free =>
        rw [hmutex] at hpos
        exact absurd hpos (Nat.lt_irrefl 0)
    | held owner again =>
        rw [h.homes m owner again hmutex object hobject, h.homes m owner again hmutex other hother]
  · intro hgone m
    have hdepth := h.depth_eq m
    rw [show state.held m = 0 from Threads.census_eq_zero fun object => by simp [hgone object]]
      at hdepth
    cases hmutex : state.mutexes m with
    | free => rfl
    | held owner again =>
        rw [hmutex] at hdepth
        exact absurd hdepth (Nat.succ_ne_zero again)

/-- Two threads and one mutex.  The first one locks it twice, moves one of its objects to the
other and releases; the second one waits until then. -/
def movedLock : List (Bool × LockOp Unit (Bool × Bool)) :=
  [(false, .constructLocked (false, false) ()), (false, .constructLocked (false, true) ()),
    (true, .constructLocked (true, false) ()), (false, .assign (false, true) (false, false)),
    (false, .destroy (false, false)), (false, .destroy (false, true)),
    (true, .constructLocked (true, false) ()), (true, .destroy (true, false))]

theorem lock_objects_balanced_movedLock :
    let state := movedLock.foldl step (initial : LockObjects Unit (Bool × Bool) Bool)
    ((movedLock.take 4).foldl step
        (initial : LockObjects Unit (Bool × Bool) Bool)).objects (true, false) = none ∧
      state.mutexes () = .free := by
  intro state
  have hproper : Run.Along step (fun state event => state.Proper Prod.fst event.1 event.2)
      (initial : LockObjects Unit (Bool × Bool) Bool) movedLock := by
    refine ⟨?_, ?_, ?_, ?_, ?_, ?_, ?_, ?_, trivial⟩ <;> simp only [Proper] <;> decide
  obtain ⟨-, -, -, hfree⟩ := lock_objects_balanced Prod.fst movedLock hproper
  refine ⟨by decide, hfree ?_ ()⟩
  rintro ⟨_ | _, _ | _⟩ <;> decide

end LockObjects

end Memhook
