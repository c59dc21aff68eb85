import Mathlib.Data.Fintype.Option

/-!
# The lifetime of the engine

`src/memhook/singleton.h`: one instance behind a global pointer, with a reference count of
its own.  `Initialize` publishes the pointer before it has called `OnInitialize`, and
`GetInstance` reads the pointer twice before it increments the count.  Each load and store
of the pointer, each update of the count, `OnInitialize`, `OnDestroy` and the deletion are
one step, in any interleaving.

`SingletonMachine.Orderly` says what keeps the instance safe: no thread obtains it before
`OnInitialize` has returned, and the count does not reach zero while a thread has read the
pointer and not yet counted itself.  `Placed` is the part of the invariant that is about
the pointer; the count is the subject of `Engine.Lifetime`.
-/

namespace Memhook

/-- The next step of `Initialize`. -/
inductive InitializePc
  | new
  | addRef
  | store
  | onInitialize
  | done
  deriving DecidableEq, Repr

/-- The next step of `Destroy` or of a thread. -/
inductive LifetimePc
  /-- A thread, before the first load of `GetInstance`. -/
  | idle
  /-- The pointer was set; the second load. -/
  | reload
  /-- `intrusive_ptr_add_ref`. -/
  | adding
  | holding
  /-- The two accesses of `Destroy` to the pointer. -/
  | load
  | store (p : Bool)
  /-- `intrusive_ptr_release`. -/
  | dropping
  | destroying
  | deleting
  | done
  deriving DecidableEq, Repr

namespace LifetimePc

/-- A reference is counted for it, that of `Initialize` for `Destroy`. -/
def holds : LifetimePc → Bool
  | holding | load | store _ | dropping => true
  | _ => false

/-- It works on the instance or is about to. -/
def involved : LifetimePc → Bool
  | adding | holding | store _ | dropping | destroying | deleting | done => true
  | _ => false

/-- `Destroy` has not taken the pointer away. -/
def keeps : LifetimePc → Bool
  | load | store _ => true
  | _ => false

/-- A step of a thread and not of `Destroy`. -/
def ofThread : LifetimePc → Bool
  | load | store _ | done => false
  | _ => true

end LifetimePc

/-- The instance, the pointer to it, `Initialize`, the threads, and `Destroy` as the actor
`none`. -/
structure SingletonMachine (T : Type*) where
  /-- `instance_` is not `NULL`. -/
  instance_ : Bool
  refCounter : UInt32
  initializer : InitializePc
  pc : Option T → LifetimePc
  /-- `OnInitialize` has returned. -/
  initialized : Bool
  /-- How often `OnDestroy` has been called, and `delete`. -/
  destroys : ℕ
  deletes : ℕ

/-- The next step of `Initialize`, of `Destroy` or of a thread, or a use of the instance
by a thread that holds it. -/
inductive LifetimeEvent (T : Type*)
  | runInitialize
  | advance (actor : Option T)
  | use (t : T)

namespace SingletonMachine

variable {T : Type*} [DecidableEq T]

def initial : SingletonMachine T :=
  ⟨false, 0, .new, fun actor => if actor.isSome then .idle else .load, false, 0, 0⟩

def goto (machine : SingletonMachine T) (actor : Option T) (pc : LifetimePc) :
    SingletonMachine T :=
  { machine with pc := Function.update machine.pc actor pc }

/-- The next step of `Initialize`. -/
def runInitialize (machine : SingletonMachine T) : SingletonMachine T :=
  match machine.initializer with
  | .new => { machine with refCounter := 0, initializer := .addRef }
  | .addRef => { machine with refCounter := machine.refCounter + 1, initializer := .store }
  | .store => { machine with instance_ := true, initializer := .onInitialize }
  | .onInitialize => { machine with initialized := true, initializer := .done }
  | .done => machine

/-- Where an actor is after `intrusive_ptr_release`. -/
def released : Option T → LifetimePc
  | some _ => .idle
  | none => .done

omit [DecidableEq T] in
theorem released_spec (actor : Option T) :
    (released actor).holds = false ∧ released actor ≠ .adding ∧ released actor ≠ .destroying ∧
      released actor ≠ .deleting := by
  cases actor <;> simp [released, LifetimePc.holds]

/-- The next step of `Destroy` or of a thread. -/
def advance (machine : SingletonMachine T) (actor : Option T) : SingletonMachine T :=
  match machine.pc actor with
  | .idle => if machine.instance_ then machine.goto actor .reload else machine
  | .reload => machine.goto actor (if machine.instance_ then .adding else .idle)
  | .adding => { machine with refCounter := machine.refCounter + 1 }.goto actor .holding
  | .holding => machine.goto actor .dropping
  | .load => machine.goto actor (.store machine.instance_)
  | .store p => { machine with instance_ := false }.goto actor (if p then .dropping else .done)
  | .dropping =>
      { machine with refCounter := machine.refCounter - 1 }.goto actor
        (if machine.refCounter - 1 = 0 then .destroying else released actor)
  | .destroying => { machine with destroys := machine.destroys + 1 }.goto actor .deleting
  | .deleting => { machine with deletes := machine.deletes + 1 }.goto actor (released actor)
  | .done => machine

def step (machine : SingletonMachine T) : LifetimeEvent T → SingletonMachine T
  | .runInitialize => machine.runInitialize
  | .advance actor => machine.advance actor
  | .use _ => machine

/-! ## What is asked for and what is promised -/

/-- `GetInstance` and `Destroy` find the pointer only after `OnInitialize` has returned,
and the last reference is dropped while no thread is between its second load and
`intrusive_ptr_add_ref`. -/
def Orderly (machine : SingletonMachine T) : LifetimeEvent T → Prop
  | .advance actor =>
      (machine.pc actor = .reload → machine.instance_ → machine.initialized) ∧
        (machine.pc actor = .load → machine.initialized) ∧
        (machine.pc actor = .dropping → machine.refCounter = 1 →
          ∀ other, machine.pc other ≠ .adding)
  | _ => True

instance [Fintype T] (machine : SingletonMachine T) : DecidablePred machine.Orderly
  | .advance _ => inferInstanceAs (Decidable (_ ∧ _ ∧ (_ → _ → ∀ _, _)))
  | .runInitialize | .use _ => isTrue trivial

/-- A thread uses only an instance whose `OnInitialize` has returned and whose `OnDestroy`
has not begun, and nobody touches it after it was deleted. -/
def Live (machine : SingletonMachine T) : LifetimeEvent T → Prop
  | .use t =>
      machine.pc (some t) = .holding →
        machine.initialized ∧ machine.destroys = 0 ∧ machine.deletes = 0
  | .advance actor =>
      machine.pc actor = .adding ∨ machine.pc actor = .dropping ∨ machine.pc actor = .destroying ∨
        machine.pc actor = .deleting → machine.deletes = 0
  | .runInitialize => machine.initializer ≠ .done → machine.deletes = 0

instance (machine : SingletonMachine T) : DecidablePred machine.Live
  | .use _ => inferInstanceAs (Decidable (_ → _ ∧ _ ∧ _))
  | .advance _ => inferInstanceAs (Decidable (_ ∨ _ ∨ _ ∨ _ → _))
  | .runInitialize => inferInstanceAs (Decidable (_ → _))

/-! ## Who is where -/

/-- The pointer is set from the store of `Initialize` to the one of `Destroy`, and nobody
gets at the instance before `OnInitialize` has returned. -/
structure Placed (machine : SingletonMachine T) : Prop where
  instance_iff : machine.instance_ ↔
    (machine.initializer = .onInitialize ∨ machine.initializer = .done) ∧
      (machine.pc none).keeps
  initialized_iff : machine.initialized ↔ machine.initializer = .done
  involved : ∀ actor, (machine.pc actor).involved → machine.initialized
  found : ∀ actor, machine.pc actor ≠ .store false
  threads : ∀ t, (machine.pc (some t)).ofThread
  destroyer : machine.pc none = .load ∨ (machine.pc none).involved

namespace Placed

variable {machine machine' : SingletonMachine T} {actor : Option T} {pc : LifetimePc}

/-- An actor moves on without touching the pointer. -/
theorem goto (h : machine.Placed) (hinstance : machine'.instance_ = machine.instance_)
    (hinitializer : machine'.initializer = machine.initializer)
    (hinitialized : machine'.initialized = machine.initialized)
    (hpc : machine'.pc = Function.update machine.pc actor pc)
    (hkeeps : pc.keeps = (machine.pc actor).keeps) (hinvolved : pc.involved → machine.initialized)
    (hfound : pc ≠ .store false) (hthread : ∀ t, actor = some t → pc.ofThread)
    (hdestroyer : actor = none → pc = .load ∨ pc.involved) : machine'.Placed := by
  have hat : ∀ other, machine'.pc other = if other = actor then pc else machine.pc other := by
    intro other
    rw [hpc, Function.update_apply]
  refine ⟨?_, ?_, fun other => ?_, fun other => ?_, fun t => ?_, ?_⟩
  · rw [hinstance, hinitializer, h.instance_iff, hat]
    split
    next heq => rw [hkeeps, heq]
    next => rfl
  · rw [hinitialized, hinitializer, h.initialized_iff]
  · rw [hat, hinitialized]
    split
    · exact hinvolved
    · exact h.involved other
  · rw [hat]
    split
    · exact hfound
    · exact h.found other
  · rw [hat]
    split
    next heq => exact hthread t heq.symm
    next => exact h.threads t
  · rw [hat]
    split
    next heq => exact hdestroyer heq.symm
    next => exact h.destroyer

/-- An actor that works on the instance goes on with it. -/
theorem goto_involved (h : machine.Placed) (hinstance : machine'.instance_ = machine.instance_)
    (hinitializer : machine'.initializer = machine.initializer)
    (hinitialized : machine'.initialized = machine.initialized)
    (hpc : machine'.pc = Function.update machine.pc actor pc)
    (hinvolved : (machine.pc actor).involved) (hthread : (machine.pc actor).ofThread)
    (hnext : pc.involved) (hnextThread : pc.ofThread) : machine'.Placed := by
  have hkeeps : ∀ pc : LifetimePc, pc.ofThread → pc.keeps = false := by
    intro pc hpc
    cases pc <;> first | rfl | exact absurd hpc (by simp [LifetimePc.ofThread])
  refine h.goto hinstance hinitializer hinitialized hpc ?_ (fun _ => h.involved actor hinvolved)
    ?_ (fun _ _ => hnextThread) (fun _ => .inr hnext)
  · rw [hkeeps pc hnextThread, hkeeps _ hthread]
  · rintro rfl
    simp [LifetimePc.ofThread] at hnextThread

/-- An actor has given its reference back. -/
theorem goto_released (h : machine.Placed) (hinstance : machine'.instance_ = machine.instance_)
    (hinitializer : machine'.initializer = machine.initializer)
    (hinitialized : machine'.initialized = machine.initialized)
    (hpc : machine'.pc = Function.update machine.pc actor (released actor))
    (hinvolved : (machine.pc actor).involved) (hkeeps : (machine.pc actor).keeps = false) :
    machine'.Placed := by
  refine h.goto hinstance hinitializer hinitialized hpc ?_ (fun _ => h.involved actor hinvolved)
    ?_ ?_ ?_
  · rw [hkeeps]
    cases actor <;> rfl
  · cases actor <;> simp [released]
  · rintro t rfl
    rfl
  · rintro rfl
    exact .inr rfl

omit [DecidableEq T] in
/-- Only `Destroy` takes steps that are not those of a thread. -/
theorem eq_none (h : machine.Placed) (hpc : (machine.pc actor).ofThread = false) :
    actor = none := by
  cases actor with
  | none => rfl
  | some t => simp [h.threads t] at hpc

/-- `Destroy` takes the pointer away. -/
theorem store (h : machine.Placed) (hpc : machine.pc none = .store true) :
    ({ machine with instance_ := false }.goto none .dropping).Placed := by
  have hinitialized : machine.initialized := h.involved none (by rw [hpc]; rfl)
  have hat : ∀ other, (({ machine with instance_ := false } : SingletonMachine T).goto none
      .dropping).pc other = if other = none then .dropping else machine.pc other :=
    fun other => Function.update_apply ..
  refine ⟨?_, h.initialized_iff, fun other _ => hinitialized, fun other => ?_, fun t => ?_, ?_⟩
  · rw [hat]
    simp [SingletonMachine.goto, LifetimePc.keeps]
  · rw [hat]
    split
    · simp
    · exact h.found other
  · rw [hat]
    exact h.threads t
  · rw [hat]
    exact .inr rfl

theorem advance (h : machine.Placed) (actor : Option T)
    (horderly : machine.Orderly (.advance actor)) : (machine.advance actor).Placed := by
  obtain ⟨hreload, hload, -⟩ := horderly
  have hnone : actor = none → machine.pc actor = .load ∨ (machine.pc actor).involved := by
    rintro rfl
    exact h.destroyer
  unfold SingletonMachine.advance
  split
  next hpc =>
    split
    · rw [hpc] at hnone
      exact h.goto rfl rfl rfl rfl (by rw [hpc]; rfl) (by simp [LifetimePc.involved]) (by simp)
        (fun _ _ => rfl) (fun heq => by simpa [LifetimePc.involved] using hnone heq)
    · exact h
  next hpc =>
    rw [hpc] at hnone
    have hdestroyer : actor ≠ none := fun heq => by
      simpa [LifetimePc.involved] using hnone heq
    split
    next hset =>
      exact h.goto rfl rfl rfl rfl (by rw [hpc]; rfl) (fun _ => hreload hpc hset) (by simp)
        (fun _ _ => rfl) (fun heq => absurd heq hdestroyer)
    next =>
      exact h.goto rfl rfl rfl rfl (by rw [hpc]; rfl) (by simp [LifetimePc.involved]) (by simp)
        (fun _ _ => rfl) (fun heq => absurd heq hdestroyer)
  next hpc =>
    exact h.goto_involved rfl rfl rfl rfl (by rw [hpc]; rfl) (by rw [hpc]; rfl) rfl rfl
  next hpc =>
    exact h.goto_involved rfl rfl rfl rfl (by rw [hpc]; rfl) (by rw [hpc]; rfl) rfl rfl
  next hpc =>
    -- `Destroy` finds the pointer set, because `Initialize` is done
    obtain rfl : actor = none := h.eq_none (by rw [hpc]; rfl)
    have hset : machine.instance_ :=
      h.instance_iff.mpr ⟨.inr (h.initialized_iff.mp (hload hpc)), by rw [hpc]; rfl⟩
    exact h.goto rfl rfl rfl rfl (by rw [hpc]; rfl) (fun _ => hload hpc) (by simp [hset])
      (fun _ heq => by simp at heq) (fun _ => .inr rfl)
  next p hpc =>
    obtain rfl : actor = none := h.eq_none (by rw [hpc]; rfl)
    cases p with
    | false => exact absurd hpc (h.found none)
    | true => exact h.store hpc
  next hpc =>
    split
    · exact h.goto_involved rfl rfl rfl rfl (by rw [hpc]; rfl) (by rw [hpc]; rfl) rfl rfl
    · exact h.goto_released rfl rfl rfl rfl (by rw [hpc]; rfl) (by rw [hpc]; rfl)
  next hpc =>
    exact h.goto_involved rfl rfl rfl rfl (by rw [hpc]; rfl) (by rw [hpc]; rfl) rfl rfl
  next hpc =>
    exact h.goto_released rfl rfl rfl rfl (by rw [hpc]; rfl) (by rw [hpc]; rfl)
  next => exact h

omit [DecidableEq T] in
theorem runInitialize (h : machine.Placed) : machine.runInitialize.Placed := by
  have hinstance := h.instance_iff
  have hinitialized := h.initialized_iff
  have hload : machine.initializer ≠ .done → machine.pc none = .load := by
    intro hne
    refine h.destroyer.resolve_right fun hinvolved => hne ?_
    exact hinitialized.mp (h.involved none hinvolved)
  unfold SingletonMachine.runInitialize
  split
  next hpc =>
    rw [hpc] at hinstance hinitialized
    exact ⟨by simpa using hinstance, by simpa using hinitialized, h.involved, h.found, h.threads,
      h.destroyer⟩
  next hpc =>
    rw [hpc] at hinstance hinitialized
    exact ⟨by simpa using hinstance, by simpa using hinitialized, h.involved, h.found, h.threads,
      h.destroyer⟩
  next hpc =>
    rw [hpc] at hinitialized hload
    refine ⟨?_, by simpa using hinitialized, h.involved, h.found, h.threads, h.destroyer⟩
    simp [hload (by simp), LifetimePc.keeps]
  next hpc =>
    rw [hpc] at hinstance
    exact ⟨by simpa using hinstance, by simp, fun _ _ => rfl, h.found, h.threads, h.destroyer⟩
  next => exact h

end Placed

end SingletonMachine

end Memhook
