import Memhook.Engine.Singleton
import Memhook.Lib.Run
import Memhook.Lib.Threads

/-!
# The reference count of the engine

The count is the number of those who hold a reference, where `Destroy` holds the one of
`Initialize`.  It falls to zero once, and whoever makes it fall calls `OnDestroy` and
deletes the instance; since nobody is about to count itself in then, the count stays at
zero.
-/

namespace Memhook

open Threads

namespace SingletonMachine

variable {T : Type*} [DecidableEq T]

/-! ## The count -/

section Count

variable [Fintype T]

/-- How many hold a reference, and how many are about to call `OnDestroy` or `delete`. -/
def holders (machine : SingletonMachine T) : ℕ := census (fun pc => pc.holds) machine.pc

def destroyers (machine : SingletonMachine T) : ℕ := census (· = .destroying) machine.pc

def deleters (machine : SingletonMachine T) : ℕ := census (· = .deleting) machine.pc

/-- The reference of `Initialize` is not counted yet. -/
def uncounted (machine : SingletonMachine T) : Bool :=
  machine.initializer = .new ∨ machine.initializer = .addRef

/-- The count is the number of holders, and the end of the instance begins when there are
none left, once. -/
structure Counted (machine : SingletonMachine T) : Prop where
  fresh : machine.initializer = .new → machine.refCounter = 0
  count : machine.refCounter.toNat + machine.uncounted.toNat = machine.holders
  gone : machine.holders = 0 → ∀ actor, machine.pc actor ≠ .adding
  destroys : machine.destroys + machine.destroyers = if machine.holders = 0 then 1 else 0
  deletes : machine.deletes + machine.deleters = machine.destroys

omit [DecidableEq T] in
theorem holders_pos {machine : SingletonMachine T} (actor : Option T)
    (h : (machine.pc actor).holds) : 0 < machine.holders :=
  census_pos (p := fun pc : LifetimePc => pc.holds = true) h

/-- What a move does to the three numbers. -/
theorem numbers_move {machine machine' : SingletonMachine T} {actor : Option T}
    {before after : LifetimePc} (hbefore : machine.pc actor = before)
    (hpc : machine'.pc = Function.update machine.pc actor after) :
    machine'.holders + (if before.holds then 1 else 0) =
        machine.holders + (if after.holds then 1 else 0) ∧
      machine'.destroyers + (if before = .destroying then 1 else 0) =
        machine.destroyers + (if after = .destroying then 1 else 0) ∧
      machine'.deleters + (if before = .deleting then 1 else 0) =
        machine.deleters + (if after = .deleting then 1 else 0) := by
  subst hbefore
  unfold holders destroyers deleters
  rw [hpc]
  exact ⟨census_update .., census_update .., census_update ..⟩

namespace Counted

variable {machine machine' : SingletonMachine T} {actor : Option T} {before after : LifetimePc}

/-- An actor moves.  `hcount` is about the reference count, the rest about the end of the
instance. -/
theorem move (h : machine.Counted) (hbefore : machine.pc actor = before)
    (hpc : machine'.pc = Function.update machine.pc actor after)
    (hinitializer : machine'.initializer = machine.initializer)
    (hfresh : machine.initializer = .new → machine'.refCounter = machine.refCounter)
    (hcount : machine'.refCounter.toNat + (if before.holds then 1 else 0) =
      machine.refCounter.toNat + if after.holds then 1 else 0)
    (hgone : machine'.holders = 0 → after ≠ .adding ∧ ∀ other, other ≠ actor →
      machine.pc other ≠ .adding)
    (hdestroys : machine'.destroys + machine'.destroyers = if machine'.holders = 0 then 1 else 0)
    (hdeletes : machine'.deletes + machine'.deleters = machine'.destroys) : machine'.Counted := by
  obtain ⟨hholders, -, -⟩ := numbers_move hbefore hpc
  refine ⟨?_, ?_, ?_, hdestroys, hdeletes⟩
  · rw [hinitializer]
    exact fun hnew => (hfresh hnew).trans (h.fresh hnew)
  · have hold := h.count
    unfold uncounted at hold ⊢
    rw [hinitializer]
    omega
  · intro hzero other
    rw [hpc, Function.update_apply]
    split
    next => exact (hgone hzero).1
    next hne => exact (hgone hzero).2 other hne

/-- A move that neither counts nor ends anything. -/
theorem quiet (h : machine.Counted) (hbefore : machine.pc actor = before)
    (hpc : machine'.pc = Function.update machine.pc actor after)
    (hinitializer : machine'.initializer = machine.initializer)
    (hcounter : machine'.refCounter = machine.refCounter)
    (hdestroys : machine'.destroys = machine.destroys)
    (hdeletes : machine'.deletes = machine.deletes) (hholds : after.holds = before.holds)
    (hdestroying : before ≠ .destroying ∧ after ≠ .destroying)
    (hdeleting : before ≠ .deleting ∧ after ≠ .deleting)
    (hadding : after = .adding → machine.holders ≠ 0) : machine'.Counted := by
  obtain ⟨hholders, hdestroyers, hdeleters⟩ := numbers_move hbefore hpc
  simp only [hholds, hdestroying, hdeleting, if_false, Nat.add_zero,
    Nat.add_right_cancel_iff] at hholders hdestroyers hdeleters
  refine h.move hbefore hpc hinitializer (fun _ => hcounter) (by rw [hcounter, hholds]) ?_ ?_ ?_
  · rw [hholders]
    exact fun hzero => ⟨fun heq => hadding heq hzero, fun other _ => h.gone hzero other⟩
  · rw [hdestroys, hdestroyers, hholders]
    exact h.destroys
  · rw [hdestroys, hdeletes, hdeleters]
    exact h.deletes

/-- `intrusive_ptr_add_ref` by a thread. -/
theorem add (h : machine.Counted) (hcard : Fintype.card T + 1 < 2 ^ 32)
    (hcounted : machine.uncounted = false) (hbefore : machine.pc actor = .adding) :
    ({ machine with refCounter := machine.refCounter + 1 }.goto actor .holding).Counted := by
  generalize hafter : { machine with refCounter := machine.refCounter + 1 }.goto actor .holding =
    machine'
  have hpc : machine'.pc = Function.update machine.pc actor .holding := by rw [← hafter]; rfl
  have hcounter : machine'.refCounter = machine.refCounter + 1 := by rw [← hafter]; rfl
  have hpositive : machine.holders ≠ 0 := fun hzero => h.gone hzero actor hbefore
  obtain ⟨hholders, hdestroyers, hdeleters⟩ := numbers_move hbefore hpc
  have hbound : machine'.holders ≤ Fintype.card T + 1 := by
    rw [← Fintype.card_option]
    exact census_le_card ..
  have hcount := h.count
  have hdestroys := h.destroys
  simp only [LifetimePc.holds, hcounted, Bool.toNat_false, if_neg hpositive, if_true, if_false,
    reduceCtorEq, Bool.false_eq_true, Nat.add_zero]
    at hholders hdestroyers hdeleters hcount hdestroys
  refine h.move hbefore hpc (by rw [← hafter]; rfl) ?_ ?_ ?_ ?_ ?_
  · intro hnew
    simp [uncounted, hnew] at hcounted
  · rw [hcounter, UInt32.toNat_add]
    simp only [LifetimePc.holds, UInt32.reduceToNat, if_true, if_false, Bool.false_eq_true]
    omega
  · intro hzero
    omega
  · rw [hdestroyers, if_neg (by omega), ← hafter]
    exact hdestroys
  · rw [hdeleters, ← hafter]
    exact h.deletes

/-- `intrusive_ptr_release`: the count and, if it is zero, the end. -/
theorem drop (h : machine.Counted) (hcounted : machine.uncounted = false)
    (hbefore : machine.pc actor = .dropping)
    (hlast : machine.refCounter = 1 → ∀ other, machine.pc other ≠ .adding) :
    ({ machine with refCounter := machine.refCounter - 1 }.goto actor
      (if machine.refCounter - 1 = 0 then .destroying else released actor)).Counted := by
  generalize hafter : { machine with refCounter := machine.refCounter - 1 }.goto actor
    (if machine.refCounter - 1 = 0 then .destroying else released actor) = machine'
  have hcounter : machine'.refCounter = machine.refCounter - 1 := by rw [← hafter]; rfl
  have hinitializer : machine'.initializer = machine.initializer := by rw [← hafter]; rfl
  have hdestroys' : machine'.destroys = machine.destroys := by rw [← hafter]; rfl
  have hdeletes' : machine'.deletes = machine.deletes := by rw [← hafter]; rfl
  have hpositive : 0 < machine.holders := holders_pos actor (by rw [hbefore]; rfl)
  have hcount := h.count
  have hdestroys := h.destroys
  have hdeletes := h.deletes
  rw [hcounted, Bool.toNat_false, Nat.add_zero] at hcount
  rw [if_neg hpositive.ne'] at hdestroys
  have hfresh : machine.initializer = .new → machine'.refCounter = machine.refCounter := by
    intro hnew
    simp [uncounted, hnew] at hcounted
  have hsub : (machine.refCounter - 1).toNat = machine.refCounter.toNat - 1 := by
    refine UInt32.toNat_sub_of_le _ _ ?_
    rw [UInt32.le_iff_toNat_le, hcount]
    exact hpositive
  by_cases hzero : machine.refCounter - 1 = 0
  · -- the last one calls `OnDestroy`, and nobody is about to count itself
    have hone : machine.refCounter.toNat = 1 := by
      rw [hzero, UInt32.toNat_zero] at hsub
      omega
    have hpc : machine'.pc = Function.update machine.pc actor .destroying := by
      rw [← hafter, if_pos hzero]
      rfl
    obtain ⟨hholders, hdestroyers, hdeleters⟩ := numbers_move hbefore hpc
    simp only [LifetimePc.holds, if_true, if_false, reduceCtorEq, Bool.false_eq_true,
      Nat.add_zero] at hholders hdestroyers hdeleters
    refine h.move hbefore hpc hinitializer hfresh ?_ ?_ ?_ (by omega)
    · rw [hcounter, hsub]
      simp only [LifetimePc.holds, if_true, if_false, Bool.false_eq_true]
      omega
    · exact fun _ => ⟨by simp, fun other _ => hlast (UInt32.toNat_inj.mp hone) other⟩
    · rw [if_pos (by omega)]
      omega
  · have hmany : 1 < machine.refCounter.toNat := by
      rw [← UInt32.toNat_inj, UInt32.toNat_zero] at hzero
      omega
    have hpc : machine'.pc = Function.update machine.pc actor (released actor) := by
      rw [← hafter, if_neg hzero]
      rfl
    have hreleased := released_spec actor
    obtain ⟨hholders, hdestroyers, hdeleters⟩ := numbers_move hbefore hpc
    rw [hreleased.1] at hholders
    simp only [LifetimePc.holds, hreleased, if_true, if_false, reduceCtorEq, Bool.false_eq_true,
      Nat.add_zero] at hholders hdestroyers hdeleters
    refine h.move hbefore hpc hinitializer hfresh ?_ ?_ ?_ (by omega)
    · rw [hcounter, hsub, hreleased.1]
      simp only [LifetimePc.holds, if_true, if_false, Bool.false_eq_true]
      omega
    · intro hnone
      omega
    · rw [if_neg (by omega)]
      omega

theorem destroy (h : machine.Counted) (hbefore : machine.pc actor = .destroying) :
    ({ machine with destroys := machine.destroys + 1 }.goto actor .deleting).Counted := by
  generalize hafter : { machine with destroys := machine.destroys + 1 }.goto actor .deleting =
    machine'
  have hpc : machine'.pc = Function.update machine.pc actor .deleting := by rw [← hafter]; rfl
  have hcounter : machine'.refCounter = machine.refCounter := by rw [← hafter]; rfl
  have hdestroys' : machine'.destroys = machine.destroys + 1 := by rw [← hafter]; rfl
  have hdeletes' : machine'.deletes = machine.deletes := by rw [← hafter]; rfl
  have hdestroys := h.destroys
  have hdeletes := h.deletes
  obtain ⟨hholders, hdestroyers, hdeleters⟩ := numbers_move hbefore hpc
  simp only [LifetimePc.holds, if_true, if_false, reduceCtorEq, Bool.false_eq_true,
    Nat.add_zero] at hholders hdestroyers hdeleters
  refine h.move hbefore hpc (by rw [← hafter]; rfl) (fun _ => hcounter) (by rw [hcounter]; rfl) ?_
    ?_ (by omega)
  · rw [hholders]
    exact fun hzero => ⟨by simp, fun other _ => h.gone hzero other⟩
  · rw [hholders, ← hdestroys]
    omega

theorem delete (h : machine.Counted) (hbefore : machine.pc actor = .deleting) :
    ({ machine with deletes := machine.deletes + 1 }.goto actor (released actor)).Counted := by
  generalize hafter : { machine with deletes := machine.deletes + 1 }.goto actor (released actor) =
    machine'
  have hpc : machine'.pc = Function.update machine.pc actor (released actor) := by
    rw [← hafter]
    rfl
  have hcounter : machine'.refCounter = machine.refCounter := by rw [← hafter]; rfl
  have hdestroys' : machine'.destroys = machine.destroys := by rw [← hafter]; rfl
  have hdeletes' : machine'.deletes = machine.deletes + 1 := by rw [← hafter]; rfl
  have hdestroys := h.destroys
  have hdeletes := h.deletes
  have hreleased := released_spec actor
  obtain ⟨hholders, hdestroyers, hdeleters⟩ := numbers_move hbefore hpc
  rw [hreleased.1] at hholders
  simp only [LifetimePc.holds, hreleased, if_true, if_false, reduceCtorEq, Bool.false_eq_true,
    Nat.add_zero] at hholders hdestroyers hdeleters
  refine h.move hbefore hpc (by rw [← hafter]; rfl) (fun _ => hcounter)
    (by rw [hcounter, hreleased.1]; rfl) ?_ ?_ (by omega)
  · rw [hholders]
    exact fun hzero => ⟨hreleased.2.1, fun other _ => h.gone hzero other⟩
  · rw [hholders, ← hdestroys]
    omega

theorem advance (h : machine.Counted) (hplaced : machine.Placed)
    (hcard : Fintype.card T + 1 < 2 ^ 32) (actor : Option T)
    (horderly : machine.Orderly (.advance actor)) : (machine.advance actor).Counted := by
  -- whoever works on the instance does so after `Initialize`
  have hcounted : (machine.pc actor).involved → machine.uncounted = false := by
    intro hinvolved
    have hdone := hplaced.initialized_iff.mp (hplaced.involved actor hinvolved)
    simp [uncounted, hdone]
  unfold SingletonMachine.advance
  split
  next hpc =>
    split
    · exact h.quiet hpc rfl rfl rfl rfl rfl rfl (by simp) (by simp) (by simp)
    · exact h
  next hpc =>
    split
    next hset =>
      have hkept := (hplaced.instance_iff.mp hset).2
      refine h.quiet hpc rfl rfl rfl rfl rfl rfl (by simp) (by simp) fun _ => ?_
      refine (holders_pos none ?_).ne'
      cases hnone : machine.pc none <;> simp_all [LifetimePc.keeps, LifetimePc.holds]
    next => exact h.quiet hpc rfl rfl rfl rfl rfl rfl (by simp) (by simp) (by simp)
  next hpc => exact h.add hcard (hcounted (by rw [hpc]; rfl)) hpc
  next hpc => exact h.quiet hpc rfl rfl rfl rfl rfl rfl (by simp) (by simp) (by simp)
  next hpc => exact h.quiet hpc rfl rfl rfl rfl rfl rfl (by simp) (by simp) (by simp)
  next p hpc =>
    cases p with
    | false => exact absurd hpc (hplaced.found actor)
    | true => exact h.quiet hpc rfl rfl rfl rfl rfl rfl (by simp) (by simp) (by simp)
  next hpc => exact h.drop (hcounted (by rw [hpc]; rfl)) hpc (horderly.2.2 hpc)
  next hpc => exact h.destroy hpc
  next hpc => exact h.delete hpc
  next => exact h

omit [DecidableEq T] in
theorem runInitialize (h : machine.Counted) (hcard : Fintype.card T + 1 < 2 ^ 32) :
    machine.runInitialize.Counted := by
  have hcount := h.count
  have hbound : machine.holders ≤ Fintype.card T + 1 := by
    rw [← Fintype.card_option]
    exact census_le_card ..
  unfold SingletonMachine.runInitialize
  split
  next hpc =>
    have hzero := h.fresh hpc
    refine ⟨fun _ => rfl, ?_, h.gone, h.destroys, h.deletes⟩
    simpa [uncounted, holders, hpc, hzero] using hcount
  next hpc =>
    refine ⟨by simp, ?_, h.gone, h.destroys, h.deletes⟩
    simp only [uncounted, hpc, reduceCtorEq, or_true, decide_true, Bool.toNat_true, or_self,
      decide_false, Bool.toNat_false, UInt32.toNat_add, UInt32.reduceToNat] at hcount ⊢
    change (machine.refCounter.toNat + 1) % 2 ^ 32 + 0 = machine.holders
    omega
  next hpc =>
    refine ⟨by simp, ?_, h.gone, h.destroys, h.deletes⟩
    simpa [uncounted, holders, hpc] using hcount
  next hpc =>
    refine ⟨by simp, ?_, h.gone, h.destroys, h.deletes⟩
    simpa [uncounted, holders, hpc] using hcount
  next => exact h

end Counted

/-! ## Whole runs -/

/-- The invariant of the machine. -/
structure Sound (machine : SingletonMachine T) : Prop where
  placed : machine.Placed
  counted : machine.Counted

omit [DecidableEq T] [Fintype T] in
theorem initial_cases (actor : Option T) :
    initial.pc actor = .idle ∧ actor ≠ none ∨ initial.pc actor = .load ∧ actor = none := by
  cases actor <;> simp [initial]

omit [DecidableEq T] in
/-- `Destroy` holds the reference that `Initialize` is going to count. -/
theorem holders_initial : (initial : SingletonMachine T).holders = 1 := by
  refine Finset.card_eq_one.mpr ⟨none, Finset.ext fun actor => ?_⟩
  rw [Finset.mem_filter, Finset.mem_singleton]
  rcases initial_cases actor with ⟨hpc, hactor⟩ | ⟨hpc, rfl⟩
  · simp [hpc, hactor, LifetimePc.holds]
  · simp [hpc, LifetimePc.holds]

omit [DecidableEq T] in
theorem sound_initial : (initial : SingletonMachine T).Sound := by
  have hcases := initial_cases (T := T)
  refine ⟨⟨?_, ?_, ?_, ?_, ?_, ?_⟩, ⟨?_, ?_, ?_, ?_, ?_⟩⟩
  · simp [initial]
  · simp [initial]
  · intro actor hinvolved
    rcases hcases actor with ⟨hpc, -⟩ | ⟨hpc, -⟩ <;> simp [hpc, LifetimePc.involved] at hinvolved
  · intro actor
    rcases hcases actor with ⟨hpc, -⟩ | ⟨hpc, -⟩ <;> simp [hpc]
  · intro t
    rfl
  · exact .inl rfl
  · exact fun _ => rfl
  · rw [holders_initial]
    rfl
  · simp [holders_initial]
  · have hnone : (initial : SingletonMachine T).destroyers = 0 := census_eq_zero fun actor => by
      rcases hcases actor with ⟨hpc, -⟩ | ⟨hpc, -⟩ <;> simp [hpc]
    rw [hnone, holders_initial]
    rfl
  · have hnone : (initial : SingletonMachine T).deleters = 0 := census_eq_zero fun actor => by
      rcases hcases actor with ⟨hpc, -⟩ | ⟨hpc, -⟩ <;> simp [hpc]
    rw [hnone]
    rfl

namespace Sound

variable {machine : SingletonMachine T}

theorem step (h : machine.Sound) (hcard : Fintype.card T + 1 < 2 ^ 32) {event : LifetimeEvent T}
    (horderly : machine.Orderly event) : (machine.step event).Sound := by
  cases event with
  | runInitialize => exact ⟨h.placed.runInitialize, h.counted.runInitialize hcard⟩
  | advance actor =>
      exact ⟨h.placed.advance actor horderly, h.counted.advance h.placed hcard actor horderly⟩
  | use t => exact h

omit [DecidableEq T] in
/-- While somebody holds a reference, nothing has ended. -/
theorem intact (h : machine.Sound) (hholders : machine.holders ≠ 0) :
    machine.destroys = 0 ∧ machine.deletes = 0 := by
  have hdestroys := h.counted.destroys
  have hdeletes := h.counted.deletes
  rw [if_neg hholders] at hdestroys
  omega

omit [DecidableEq T] in
theorem destroys_le_one (h : machine.Sound) : machine.destroys ≤ 1 := by
  have hdestroys := h.counted.destroys
  split at hdestroys <;> omega

omit [DecidableEq T] in
theorem live (h : machine.Sound) (event : LifetimeEvent T) : machine.Live event := by
  cases event with
  | use t =>
      intro hpc
      have hinitialized := h.placed.involved (some t) (by rw [hpc]; rfl)
      exact ⟨hinitialized, h.intact (holders_pos (some t) (by rw [hpc]; rfl)).ne'⟩
  | advance actor =>
      rintro (hpc | hpc | hpc | hpc)
      · exact (h.intact fun hzero => h.counted.gone hzero actor hpc).2
      · exact (h.intact (holders_pos actor (by rw [hpc]; rfl)).ne').2
      · -- `OnDestroy` is still to come
        have hmany : 0 < machine.destroyers := census_pos (t := actor) hpc
        have hdestroys := h.counted.destroys
        have hdeletes := h.counted.deletes
        split at hdestroys <;> omega
      · have hmany : 0 < machine.deleters := census_pos (t := actor) hpc
        have hdestroys := h.destroys_le_one
        have hdeletes := h.counted.deletes
        omega
  | runInitialize =>
      intro hpc
      have hload : machine.pc none = .load := by
        refine h.placed.destroyer.resolve_right fun hinvolved => hpc ?_
        exact h.placed.initialized_iff.mp (h.placed.involved none hinvolved)
      exact (h.intact (holders_pos none (by rw [hload]; rfl)).ne').2

end Sound

/-- `Destroy` is done, and no thread has the instance or is about to get it. -/
def Released (machine : SingletonMachine T) : Prop :=
  machine.pc none = .done ∧
    ∀ t, machine.pc (some t) = .idle ∨ machine.pc (some t) = .reload

/-- **The lifetime of the instance.**  In every orderly interleaving of `Initialize`,
`Destroy` and the threads, a thread uses the instance only after `OnInitialize` has
returned and before `OnDestroy` begins, and nobody touches it after its deletion;
`OnDestroy` runs at most once, not before `Destroy` drops its reference, and exactly once
when all references are gone. -/
theorem lifetime (hcard : Fintype.card T + 1 < 2 ^ 32) {events : List (LifetimeEvent T)}
    (horderly : Run.Along step Orderly initial events) :
    Run.Along step Live (initial : SingletonMachine T) events ∧
      (events.foldl step initial).destroys ≤ 1 ∧
      (((events.foldl step initial).pc none).holds → (events.foldl step initial).destroys = 0) ∧
      ((events.foldl step initial).Released →
        (events.foldl step initial).destroys = 1 ∧ (events.foldl step initial).deletes = 1) := by
  have hstep : ∀ {machine : SingletonMachine T} {event : LifetimeEvent T}, machine.Sound →
      machine.Orderly event → (machine.step event).Sound := fun h hevent => h.step hcard hevent
  have hsound := Run.invariant hstep sound_initial horderly
  refine ⟨Run.Along.of_invariant hstep (fun h _ => h.live _) sound_initial horderly,
    hsound.destroys_le_one, fun hholds => (hsound.intact (holders_pos none hholds).ne').1, ?_⟩
  rintro ⟨hdone, hthreads⟩
  generalize events.foldl step initial = machine at hsound hdone hthreads ⊢
  have hpc : ∀ actor, machine.pc actor = .idle ∨ machine.pc actor = .reload ∨
      machine.pc actor = .done := by
    intro actor
    cases actor with
    | none => exact .inr (.inr hdone)
    | some t => exact (hthreads t).imp id .inl
  have hholders : machine.holders = 0 := census_eq_zero fun actor => by
    rcases hpc actor with h | h | h <;> simp [h, LifetimePc.holds]
  have hdestroyers : machine.destroyers = 0 := census_eq_zero fun actor => by
    rcases hpc actor with h | h | h <;> simp [h]
  have hdeleters : machine.deleters = 0 := census_eq_zero fun actor => by
    rcases hpc actor with h | h | h <;> simp [h]
  have hdestroys := hsound.counted.destroys
  have hdeletes := hsound.counted.deletes
  rw [if_pos hholders] at hdestroys
  omega

/-- `Initialize`, a thread that uses the instance, and `Destroy` while it still does. -/
def usedWhileDestroyed : List (LifetimeEvent Unit) :=
  List.replicate 4 .runInitialize ++ List.replicate 3 (.advance (some ())) ++ [.use ()] ++
    List.replicate 3 (.advance none) ++ [.use ()] ++ List.replicate 4 (.advance (some ()))

theorem lifetime_usedWhileDestroyed :
    Run.Along step Live (initial : SingletonMachine Unit) usedWhileDestroyed ∧
      (usedWhileDestroyed.foldl step initial).destroys = 1 := by
  have horderly : Run.Along step Orderly (initial : SingletonMachine Unit) usedWhileDestroyed := by
    decide
  have hlifetime := lifetime (by decide) horderly
  exact ⟨hlifetime.1, (hlifetime.2.2.2 (by unfold Released; decide)).1⟩

/-- The thread gets the instance before `OnInitialize` is called. -/
def usedTooEarly : List (LifetimeEvent Unit) :=
  List.replicate 3 .runInitialize ++ List.replicate 3 (.advance (some ())) ++ [.use ()]

/-- The thread has read the pointer, `Destroy` runs to its end, and the thread goes on. -/
def usedTooLate : List (LifetimeEvent Unit) :=
  List.replicate 4 .runInitialize ++ List.replicate 2 (.advance (some ())) ++
    List.replicate 5 (.advance none) ++ [.advance (some ()), .use ()] ++
    List.replicate 4 (.advance (some ()))

/-- The instance is used before it is initialised, or after it was deleted, and then
`OnDestroy` runs twice. -/
theorem lifetime_violated :
    ¬ Run.Along step Live (initial : SingletonMachine Unit) usedTooEarly ∧
      ¬ Run.Along step Live (initial : SingletonMachine Unit) usedTooLate ∧
      (usedTooLate.foldl step initial).destroys = 2 := by
  decide

end Count

end SingletonMachine

end Memhook
