import Memhook.Hooks.HeapTracking
import Memhook.Engine.Newest

/-!
# Hooks inside hooks

Application code can run while a hook is active on its thread: the `new_handler` that
`do_cpp_alloc2` calls after a failed allocation, the constructors of a library that
`dlopen` loads, the modules behind a name lookup.  The depth that `NoHook` counts tells the
hooks apart that this code calls, and these leave the engine alone.

`CallTree` is what one thread does, with the calls made inside other calls in their place,
and `CallTree.trace` puts the calls into the order in which they take effect.  Only a
release at depth zero is seen by the engine.  It leaves no record of its block: the cache has
none of the address, and one in the storage was already there when the address was last
announced, so that it is of an older block.
-/

namespace Memhook

open TwoLevel

/-! ## Calls inside calls -/

/-- What a thread does, one call after the other.  A call that runs application code before
it returns carries the calls of that code. -/
inductive CallTree (R : Type*)
  | done
  | hook (ctx : Context R) (call : HookCall) (next : CallTree R)
  -- what the `new_handler` calls, round after round, until `do_malloc` succeeds or it gives up
  | cppNew (ctx : Context R) (size : UInt64) (newHandler : CallTree R) (mem : Address)
      (next : CallTree R)
  | dlopen (constructors next : CallTree R)
  | dlmopen (constructors next : CallTree R)
  -- `getaddrinfo` and the functions like it
  | nameLookup (modules next : CallTree R)
  | dlclose (destructors next : CallTree R)

/-- A call that takes effect, at the depth at which it is made. -/
inductive HookEvent (R : Type*)
  | call (hookDepth : ℤ) (ctx : Context R) (call : HookCall)
  | flushCallStackCache

/-- `++hook_depth_`. -/
def noHook (hookDepth : ℤ) : ℤ := hookDepth + 1

/-- The depth at which `do_cpp_alloc` runs `do_cpp_alloc2`. -/
def cppAllocDepth (hookDepth : ℤ) : ℤ :=
  if isNested hookDepth then hookDepth else noHook hookDepth

namespace HookCall

variable {U R S : Type*} [CallStackUnwinder U R] [MappedStorage S]

/-- The hook at any depth. -/
def hookAt (hookDepth : ℤ) (ctx : Context R) : HookCall → Engine U S → Engine U S
  | malloc size mem => memhookMalloc hookDepth ctx size mem
  | calloc nmemb size mem => memhookCalloc hookDepth ctx nmemb size mem
  | memalign size mem => memhookMemalign hookDepth ctx size mem
  | alignedAlloc size mem => memhookAlignedAlloc hookDepth ctx size mem
  | valloc size mem => memhookValloc hookDepth ctx size mem
  | pvalloc size mem => memhookPvalloc hookDepth ctx size mem
  | cppNew size mem => doCppAlloc hookDepth ctx size mem
  | posixMemalign size rs memptr => memhookPosixMemalign hookDepth ctx size rs memptr
  | mmap _ length flags fd mem => memhookMmap hookDepth ctx length flags fd mem
  | mmap64 _ length flags fd mem => memhookMmap64 hookDepth ctx length flags fd mem
  | realloc oldMem size newMem => memhookRealloc hookDepth ctx oldMem size newMem
  | mremap addr _ newLen _ newAddr => memhookMremap hookDepth ctx addr newLen newAddr
  | free mem => memhookFree hookDepth mem
  | cfree mem => memhookCfree hookDepth mem
  | cppDelete mem => doCppFree hookDepth mem
  | munmap addr _ rs => memhookMunmap hookDepth addr rs

theorem hookAt_zero (ctx : Context R) (call : HookCall) (engine : Engine U S) :
    call.hookAt 0 ctx engine = call.hook ctx engine := by
  cases call <;> rfl

/-- The gate of every hook. -/
theorem hookAt_nested {hookDepth : ℤ} (hnested : isNested hookDepth) (ctx : Context R)
    (call : HookCall) (engine : Engine U S) : call.hookAt hookDepth ctx engine = engine := by
  cases call <;> exact if_pos hnested

end HookCall

namespace World

def event (world : World Impl.Usable) : HookEvent Resolver → World Impl.Usable
  | .call hookDepth ctx call =>
      ⟨call.hookAt hookDepth ctx world.engine, call.blocksAfter world.blocks⟩
  | .flushCallStackCache => { world with engine := world.engine.doFlushCallStackCache }

def runEvents (world : World Impl.Usable) (events : List (HookEvent Resolver)) :
    World Impl.Usable :=
  events.foldl World.event world

theorem runEvents_append_cons (world : World Impl.Usable) (earlier : List (HookEvent Resolver))
    (next : HookEvent Resolver) (later : List (HookEvent Resolver)) :
    world.runEvents (earlier ++ next :: later) =
      ((world.runEvents earlier).event next).runEvents later := by
  simp only [runEvents, List.foldl_append, List.foldl_cons]

end World

namespace CallTree

/-- What the thread does to the world, from a given depth on. -/
def run : CallTree Resolver → ℤ → World Impl.Usable → World Impl.Usable
  | done, _, world => world
  | hook ctx call next, hookDepth, world =>
      next.run hookDepth (world.event (.call hookDepth ctx call))
  | cppNew ctx size newHandler mem next, hookDepth, world =>
      let world := newHandler.run (cppAllocDepth hookDepth) world
      next.run hookDepth (world.event (.call hookDepth ctx (.cppNew size mem)))
  | dlopen constructors next, hookDepth, world =>
      next.run hookDepth (constructors.run (noHook hookDepth) world)
  | dlmopen constructors next, hookDepth, world =>
      next.run hookDepth (constructors.run (noHook hookDepth) world)
  | nameLookup modules next, hookDepth, world =>
      next.run hookDepth (modules.run (noHook hookDepth) world)
  | dlclose destructors next, hookDepth, world =>
      -- `do_dlclose` comes before the `NoHook` of this hook
      let world := destructors.run hookDepth world
      next.run hookDepth (world.event .flushCallStackCache)

/-- The calls in the order in which they take effect. -/
def trace {R : Type*} : CallTree R → ℤ → List (HookEvent R)
  | done, _ => []
  | hook ctx call next, hookDepth => .call hookDepth ctx call :: next.trace hookDepth
  | cppNew ctx size newHandler mem next, hookDepth =>
      newHandler.trace (cppAllocDepth hookDepth) ++
        .call hookDepth ctx (.cppNew size mem) :: next.trace hookDepth
  | dlopen constructors next, hookDepth =>
      constructors.trace (noHook hookDepth) ++ next.trace hookDepth
  | dlmopen constructors next, hookDepth =>
      constructors.trace (noHook hookDepth) ++ next.trace hookDepth
  | nameLookup modules next, hookDepth =>
      modules.trace (noHook hookDepth) ++ next.trace hookDepth
  | dlclose destructors next, hookDepth =>
      destructors.trace hookDepth ++ .flushCallStackCache :: next.trace hookDepth

/-- Running the tree is running its trace. -/
theorem run_eq_runEvents (tree : CallTree Resolver) (hookDepth : ℤ) (world : World Impl.Usable) :
    tree.run hookDepth world = world.runEvents (tree.trace hookDepth) := by
  unfold World.runEvents
  induction tree generalizing hookDepth world with
  | done => rfl
  | hook ctx call next ih => exact ih hookDepth _
  | cppNew ctx size newHandler mem next ihHandler ihNext =>
      rw [run, trace, List.foldl_append, List.foldl_cons, ← ihHandler, ← ihNext]
  | dlopen constructors next ihConstructors ihNext =>
      rw [run, trace, List.foldl_append, ← ihConstructors, ← ihNext]
  | dlmopen constructors next ihConstructors ihNext =>
      rw [run, trace, List.foldl_append, ← ihConstructors, ← ihNext]
  | nameLookup modules next ihModules ihNext =>
      rw [run, trace, List.foldl_append, ← ihModules, ← ihNext]
  | dlclose destructors next ihDestructors ihNext =>
      rw [run, trace, List.foldl_append, List.foldl_cons, ← ihDestructors, ← ihNext]

end CallTree

/-! ## Announcements and releases -/

/-- The call inserts a record of `mem` unless there is one. -/
def EngineOp.Announces {R : Type*} (mem : Address) : EngineOp R → Prop
  | alloc _ address _ => address = mem
  | realloc _ oldMem newMem _ => newMem = mem ∧ oldMem ≠ mem
  | _ => False

/-- The engine hears of a block at `mem`. -/
def HookEvent.Announces {R : Type*} (mem : Address) : HookEvent R → Prop
  | call hookDepth ctx made => isNested hookDepth = false ∧ (made.engineOp ctx).Announces mem
  | flushCallStackCache => False

/-- What libc makes of a call is the same at every depth. -/
def HookEvent.Possible {R : Type*} (blocks : Blocks) : HookEvent R → Prop
  | call _ _ made => made.Possible blocks
  | flushCallStackCache => True

/-- The block at `mem` is given back, by `free`, `operator delete` or a `realloc` that moves
the block or asks for no bytes. -/
def HookCall.Releases (mem : Address) : HookCall → Prop
  | free address | cfree address | cppDelete address => address = mem
  | realloc oldMem size newMem => oldMem = mem ∧ newMem ≠ mem ∧ (newMem = 0 → size = 0)
  | _ => False

namespace Engine

variable {U R : Type*} [CallStackUnwinder U R] {engine : Engine U BasicMappedStorage}
  {mem : Address} {older : Option Record}

theorem covers_doHookFree (h : (engine.cell mem).Covers older) (address : Address) :
    ((engine.doHookFree address).cell mem).Covers older := by
  by_cases hnull : address = 0
  · rwa [hnull, doHookFree_null]
  · rw [cell_doHookFree hnull]
    split
    · exact .inl (.inl h.discard.1)
    · exact h

theorem covers_doHookUpdateSize (h : (engine.cell mem).Covers older) (address : Address)
    (newsize : UInt64) : ((engine.doHookUpdateSize address newsize).cell mem).Covers older := by
  by_cases hnull : address = 0
  · rwa [hnull, doHookUpdateSize_null]
  · rw [cell_doHookUpdateSize hnull]
    split
    · exact h.rewrite _
    · exact h

/-- Only an announcement can put a record on top of one that was not covered before. -/
theorem covers_apply (h : (engine.cell mem).Covers older) {op : EngineOp R}
    (hop : ¬ op.Announces mem) : ((op.apply engine).cell mem).Covers older := by
  cases op with
  | alloc ctx address memsize =>
      exact (settles_doHookAlloc_other (fun heq => hop heq.symm) ctx memsize).covers h
  | free address => exact covers_doHookFree h address
  | updateSize address newsize => exact covers_doHookUpdateSize h address newsize
  | realloc ctx oldMem newMem newSize =>
      rw [EngineOp.apply]
      unfold doHookRealloc
      split
      · exact covers_doHookUpdateSize h oldMem newSize
      · next hne =>
          have hnew : mem ≠ newMem := fun heq => hop ⟨heq.symm, heq ▸ hne⟩
          exact (settles_doHookAlloc_other hnew ctx newSize).covers (covers_doHookFree h oldMem)

theorem covers_doHookAlloc (hmem : mem ≠ 0) (ctx : Context R) (memsize : UInt64) :
    ((engine.doHookAlloc ctx mem memsize).cell mem).Covers (engine.cell mem).lower := by
  have hsettles := settles_doHookAlloc hmem ctx memsize engine mem
  rw [if_pos rfl] at hsettles
  exact hsettles.covers (Cell.covers_announce _ _)

/-- What lies under an announced record was in the storage before. -/
theorem covers_of_announces (hmem : mem ≠ 0) {op : EngineOp R} (hop : op.Announces mem) :
    ((op.apply engine).cell mem).Covers (engine.cell mem).lower := by
  cases op with
  | alloc ctx address memsize =>
      obtain rfl : address = mem := hop
      exact covers_doHookAlloc hmem ctx memsize
  | realloc ctx oldMem newMem newSize =>
      obtain ⟨rfl, hne⟩ := hop
      rw [EngineOp.apply, doHookRealloc, if_neg hne, ← cell_doHookFree_other (Ne.symm hne)]
      exact covers_doHookAlloc hmem ctx newSize
  | _ => exact hop.elim

/-- A released address keeps at most the record that was covered. -/
theorem cell_of_releases (hmem : mem ≠ 0) (h : (engine.cell mem).Covers older) (ctx : Context R)
    {call : HookCall} (hcall : call.Releases mem) :
    ((call.hook ctx engine).cell mem).upper = none ∧
      (((call.hook ctx engine).cell mem).lower = none ∨
        ((call.hook ctx engine).cell mem).lower = older) := by
  have hfree : ((engine.doHookFree mem).cell mem) = (engine.cell mem).discard := by
    rw [cell_doHookFree hmem, if_pos rfl]
  rw [HookCall.hook_eq_engineOp]
  cases call with
  | free address | cfree address | cppDelete address =>
      obtain rfl : address = mem := hcall
      rw [HookCall.engineOp, EngineOp.apply, hfree]
      exact h.discard
  | realloc oldMem size newMem =>
      obtain ⟨rfl, hne, -⟩ := hcall
      rw [HookCall.engineOp, EngineOp.apply, doHookRealloc, if_neg (Ne.symm hne)]
      have hsettles : (engine.cell oldMem).discard.Settles
          (((engine.doHookFree oldMem).doHookAlloc ctx newMem size).cell oldMem) := by
        rw [← hfree]
        exact settles_doHookAlloc_other (Ne.symm hne) ctx size
      rw [hsettles.eq_of_upper h.discard.1]
      exact h.discard
  | _ => exact hcall.elim

end Engine

/-! ## Whole runs -/

namespace World

variable {world : World Impl.Usable} {mem : Address} {older : Option Record}

theorem covers_event (h : (world.engine.cell mem).Covers older) {event : HookEvent Resolver}
    (hevent : ¬ event.Announces mem) : ((world.event event).engine.cell mem).Covers older := by
  cases event with
  | flushCallStackCache => exact h
  | call hookDepth ctx call =>
      cases hnested : isNested hookDepth with
      | true =>
          rw [event, HookCall.hookAt_nested hnested]
          exact h
      | false =>
          have hzero : hookDepth = 0 := by simpa [isNested] using hnested
          subst hzero
          rw [event, HookCall.hookAt_zero, HookCall.hook_eq_engineOp]
          exact Engine.covers_apply h fun hop => hevent ⟨hnested, hop⟩

theorem covers_runEvents (h : (world.engine.cell mem).Covers older)
    {events : List (HookEvent Resolver)} (hevents : ∀ event ∈ events, ¬ event.Announces mem) :
    ((world.runEvents events).engine.cell mem).Covers older :=
  Run.invariant (I := fun world : World Impl.Usable => (world.engine.cell mem).Covers older)
    (fun h hevent => covers_event h hevent) h (.of_forall hevents)

theorem covers_event_of_announces (hmem : mem ≠ 0) {event : HookEvent Resolver}
    (hevent : event.Announces mem) :
    ((world.event event).engine.cell mem).Covers (world.engine.cell mem).lower := by
  cases event with
  | flushCallStackCache => exact hevent.elim
  | call hookDepth ctx call =>
      have hzero : hookDepth = 0 := by simpa [isNested] using hevent.1
      subst hzero
      rw [event, HookCall.hookAt_zero, HookCall.hook_eq_engineOp]
      exact Engine.covers_of_announces hmem hevent.2

theorem covers_initial (withStorage : Bool) (unwinder : Impl.Usable) (timeout : Int64)
    (maxItems : UInt64) (policy : CallStackUnwindProcInfoPolicy) (mem : Address) :
    ((initial withStorage unwinder timeout maxItems policy).engine.cell mem).Covers none :=
  .inl (refines_initial withStorage unwinder timeout maxItems policy mem).1

/-- **A release at depth zero leaves no record of its block**, whatever the thread did
before and at whatever depths.  The cache has no record of the address, and one in the
storage was already there when the address was last announced.  A release inside a hook
leaves the engine as it is. -/
theorem outermost_release_forgets (withStorage : Bool) (unwinder : Impl.Usable)
    (timeout : Int64) (maxItems : UInt64) (policy : CallStackUnwindProcInfoPolicy)
    (tree : CallTree Resolver) (before after : List (HookEvent Resolver)) (hookDepth : ℤ)
    (ctx : Context Resolver) (call : HookCall)
    (htrace : tree.trace 0 = before ++ .call hookDepth ctx call :: after) (mem : Address)
    (hmem : mem ≠ 0) (hreleases : call.Releases mem) :
    let start := initial withStorage unwinder timeout maxItems policy
    let released := (start.runEvents before).event (.call hookDepth ctx call)
    (isNested hookDepth = true → released.engine = (start.runEvents before).engine) ∧
      (isNested hookDepth = false →
        (released.engine.cell mem).upper = none ∧
          ∀ record, (released.engine.cell mem).lower = some record →
            ∃ earlier announcement later, before = earlier ++ announcement :: later ∧
              announcement.Announces mem ∧ (∀ event ∈ later, ¬ event.Announces mem) ∧
              ((start.runEvents earlier).engine.cell mem).lower = some record) := by
  intro start released
  refine ⟨fun hnested => HookCall.hookAt_nested hnested ctx call _, ?_⟩
  intro hnested
  have hzero : hookDepth = 0 := by simpa [isNested] using hnested
  subst hzero
  have hengine : released.engine = call.hook ctx (start.runEvents before).engine :=
    HookCall.hookAt_zero ctx call _
  rw [hengine]
  rcases Run.exists_last (HookEvent.Announces mem) before with
    hnever | ⟨earlier, announcement, later, rfl, hannounces, hlater⟩
  · -- nothing was ever announced there
    have hcovers := covers_runEvents
      (covers_initial withStorage unwinder timeout maxItems policy mem) hnever
    obtain ⟨hupper, hlower⟩ := Engine.cell_of_releases hmem hcovers ctx hreleases
    refine ⟨hupper, fun record hrecord => ?_⟩
    rw [or_self_iff.mp hlower] at hrecord
    simp at hrecord
  · have hcovers : ((start.runEvents (earlier ++ announcement :: later)).engine.cell mem).Covers
        ((start.runEvents earlier).engine.cell mem).lower := by
      rw [runEvents_append_cons]
      exact covers_runEvents (covers_event_of_announces hmem hannounces) hlater
    obtain ⟨hupper, hlower⟩ := Engine.cell_of_releases hmem hcovers ctx hreleases
    refine ⟨hupper, fun record hrecord => ?_⟩
    refine ⟨earlier, announcement, later, rfl, hannounces, hlater, ?_⟩
    rcases hlower with hnone | hsame
    · simp [hnone] at hrecord
    · rw [← hsame, hrecord]

/-- A `new_handler` that gives back what it allocated, and a release outside. -/
def balancedTree : CallTree Resolver :=
  .hook ⟨1, [], .silent⟩ (.malloc 100 16) <|
  .cppNew ⟨4, [], .silent⟩ 64
    (.hook ⟨2, [], .silent⟩ (.malloc 8 48) <| .hook ⟨3, [], .silent⟩ (.free 48) .done) 32 <|
  .hook ⟨5, [], .silent⟩ (.free 16) .done

theorem outermost_release_forgets_balancedTree :
    let before : List (HookEvent Resolver) :=
      [.call 0 ⟨1, [], .silent⟩ (.malloc 100 16), .call 1 ⟨2, [], .silent⟩ (.malloc 8 48),
        .call 1 ⟨3, [], .silent⟩ (.free 48), .call 0 ⟨4, [], .silent⟩ (.cppNew 64 32)]
    balancedTree.trace 0 = before ++ [.call 0 ⟨5, [], .silent⟩ (.free 16)] ∧
      (((initial true Impl.Usable.initial 0 8 .kFlushLocalCacheWhen).runEvents
        before).engine.cell 16).get = some ⟨100, 1, []⟩ ∧
      let released := ((initial true Impl.Usable.initial 0 8 .kFlushLocalCacheWhen).runEvents
        before).event (.call 0 ⟨5, [], .silent⟩ (.free 16))
      (released.engine.cell 16).upper = none ∧ (released.engine.cell 16).lower = none := by
  intro before
  have htrace : balancedTree.trace 0 =
      before ++ [.call 0 ⟨5, [], .silent⟩ (.free 16)] := rfl
  refine ⟨htrace, by decide, ?_⟩
  intro released
  obtain ⟨hupper, hlower⟩ := (outermost_release_forgets true Impl.Usable.initial 0 8
    .kFlushLocalCacheWhen balancedTree before [] 0 ⟨5, [], .silent⟩ (.free 16) htrace 16
    (by decide) rfl).2 rfl
  refine ⟨hupper, Option.eq_none_iff_forall_ne_some.mpr fun record hrecord => ?_⟩
  -- the block was announced by the first call, and the storage was empty then
  obtain ⟨earlier, announcement, later, hbefore, hannounces, -, hearlier⟩ := hlower record hrecord
  cases earlier with
  | nil => cases hearlier
  | cons first earlier =>
      have hmem : announcement ∈ before.tail := by
        rw [hbefore]
        simp
      simp only [before, List.tail_cons, List.mem_cons, List.not_mem_nil, or_false] at hmem
      rcases hmem with rfl | rfl | rfl <;>
        simp [HookEvent.Announces, EngineOp.Announces, HookCall.engineOp, isNested] at hannounces

/-- A `new_handler` that frees a recorded block, and the constructor of a library that moves
another one. -/
def handlerTree : CallTree Resolver :=
  .hook ⟨1, [], .silent⟩ (.malloc 100 16) <|
  .hook ⟨2, [], .silent⟩ (.malloc 200 32) <|
  .cppNew ⟨4, [], .silent⟩ 4096 (.hook ⟨3, [], .silent⟩ (.free 16) .done) 64 <|
  .dlopen (.hook ⟨5, [], .silent⟩ (.realloc 32 300 48) .done) .done

/-- Both blocks have been given back, inside hooks, and both records are still there. -/
theorem nested_releases_unseen :
    Run.Along World.event (fun world event => event.Possible world.blocks)
      (initial true Impl.Usable.initial 2 8 .kFlushLocalCacheWhen) (handlerTree.trace 0) ∧
    let world := handlerTree.run 0 (initial true Impl.Usable.initial 2 8 .kFlushLocalCacheWhen)
    world.blocks 16 = none ∧ world.engine.record? 16 = some ⟨100, 1, []⟩ ∧
      world.blocks 32 = none ∧ world.engine.record? 32 = some ⟨200, 2, []⟩ := by
  refine ⟨?_, by decide, by decide, by decide, by decide⟩
  refine ⟨?_, ?_, ?_, ?_, ?_, trivial⟩ <;> simp only [HookEvent.Possible, HookCall.Possible] <;>
    decide

end World

end Memhook
