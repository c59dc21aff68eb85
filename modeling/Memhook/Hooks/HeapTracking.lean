import Memhook.Hooks.Hooks

/-!
# Heap blocks are not forgotten

A run of `malloc`, `calloc`, `memalign`, `realloc` and `free` keeps the records
equal to the blocks: `Tracks` is that invariant, and one call preserves it unless
it is a `realloc` that fails.

`DoHookRealloc` sees only the two pointers.  A null result for a block means to it
that the block is gone, which is right when the requested size was zero and wrong
when the call failed: then the block is still allocated and its record is removed.
`memhook_mremap` asks for `MAP_FAILED` before it calls the engine; `memhook_realloc`
asks nothing.
-/

namespace Memhook

open TwoLevel

/-! ## Sizes -/

namespace RecordMap

/-- The blocks a map of records speaks about. -/
def sizes (m : RecordMap) : Blocks := fun address => (m address).map Record.memsize

theorem sizes_update (m : RecordMap) (mem : Address) (record : Option Record) :
    sizes (Function.update m mem record) =
      Function.update m.sizes mem (record.map Record.memsize) :=
  Function.comp_update (Option.map Record.memsize) m mem record

theorem sizes_alloc (m : RecordMap) (mem : Address) (record : Record) :
    (m.alloc mem record).sizes = m.sizes.allocated mem record.memsize := by
  unfold alloc Blocks.allocated
  split
  · rfl
  · exact sizes_update m mem (some record)

theorem sizes_free (m : RecordMap) (mem : Address) :
    (m.free mem).sizes = m.sizes.released mem := by
  unfold free Blocks.released
  split
  · rfl
  · exact sizes_update m mem none

/-- Resizing a recorded block. -/
theorem sizes_updateSize {m : RecordMap} {mem : Address} (hrecorded : (m.sizes mem).isSome)
    (size : UInt64) : (m.updateSize mem size).sizes = m.sizes.allocated mem size := by
  unfold updateSize Blocks.allocated
  split
  · rfl
  · obtain ⟨record, hrecord⟩ : ∃ record, m mem = some record :=
      Option.isSome_iff_exists.mp (by simpa [sizes] using hrecorded)
    rw [hrecord]
    exact sizes_update m mem (some (record.resize size))

theorem eq_none_of_sizes {m : RecordMap} {blocks : Blocks} (h : m.sizes = blocks)
    {address : Address} (hnone : blocks address = none) : m address = none := by
  rw [← h] at hnone
  simpa [sizes] using hnone

end RecordMap

namespace Blocks

theorem allocated_released_self (blocks : Blocks) {mem : Address} (hmem : mem ≠ 0)
    (size : UInt64) : (blocks.released mem).allocated mem size = blocks.allocated mem size := by
  simp [released, allocated, hmem]

end Blocks

/-! ## One call -/

namespace HookCall

/-- The calls of the five heap hooks. -/
def IsHeap : HookCall → Prop
  | malloc _ _ | calloc _ _ _ | memalign _ _ | realloc _ _ _ | free _ => True
  | _ => False

/-- A `realloc` that could not provide the block it was asked for. -/
def FailedRealloc : HookCall → Prop
  | realloc oldMem size newMem => oldMem ≠ 0 ∧ size ≠ 0 ∧ newMem = 0
  | _ => False

variable {R : Type*} {m : RecordMap} {blocks : Blocks}

/-- A `realloc` that does not fail treats the map as it treats the blocks. -/
theorem sizes_realloc (hsizes : m.sizes = blocks) {oldMem newMem : Address} {size : UInt64}
    (hpossible : (realloc oldMem size newMem).Possible blocks)
    (hok : ¬ (realloc oldMem size newMem).FailedRealloc) {record : Record}
    (hrecord : record.memsize = size) :
    (m.realloc oldMem newMem record).sizes = (realloc oldMem size newMem).blocksAfter blocks := by
  obtain ⟨hold, hnew⟩ := hpossible
  subst hsizes
  unfold RecordMap.realloc
  simp only [blocksAfter]
  by_cases hnull : newMem = 0
  · subst hnull
    -- the old block is gone, or there was none
    by_cases holdNull : oldMem = 0
    · subst holdNull
      simp [RecordMap.updateSize, Blocks.released]
    · have hsize : size = 0 := by
        by_contra hsize
        exact hok ⟨holdNull, hsize, rfl⟩
      simp [holdNull, hsize, RecordMap.sizes_alloc, RecordMap.sizes_free, Blocks.allocated]
  · rw [if_pos hnull]
    by_cases hsame : oldMem = newMem
    · -- grown or shrunk in place
      subst hsame
      rw [if_pos rfl, RecordMap.sizes_updateSize (hold.resolve_left hnull),
        Blocks.allocated_released_self _ hnull, hrecord]
    · rw [if_neg hsame, RecordMap.sizes_alloc, RecordMap.sizes_free, hrecord]

/-- Announcing what was handed out. -/
theorem step_sizes_alloc (hsizes : m.sizes = blocks) (ctx : Context R) {mem : Address}
    (hfresh : mem ≠ 0 → blocks mem = none) (size : UInt64) :
    (EngineOp.alloc ctx mem size).Admissible m ∧
      ((EngineOp.alloc ctx mem size).applyMap m).sizes = blocks.allocated mem size := by
  refine ⟨fun hmem => RecordMap.eq_none_of_sizes hsizes (hfresh hmem), ?_⟩
  rw [EngineOp.applyMap, RecordMap.sizes_alloc, hsizes]
  rfl

/-- One heap call that is not a failed `realloc` is admissible and keeps records and
blocks equal. -/
theorem step_sizes (ctx : Context R) {call : HookCall} (hheap : call.IsHeap)
    (hpossible : call.Possible blocks) (hok : ¬ call.FailedRealloc) (hsizes : m.sizes = blocks) :
    (call.engineOp ctx).Admissible m ∧
      ((call.engineOp ctx).applyMap m).sizes = call.blocksAfter blocks := by
  cases call with
  | malloc size mem => exact step_sizes_alloc hsizes ctx hpossible size
  | calloc nmemb size mem =>
      exact step_sizes_alloc hsizes ctx (fun hmem => (hpossible hmem).1) (nmemb * size)
  | memalign size mem => exact step_sizes_alloc hsizes ctx hpossible size
  | realloc oldMem size newMem =>
      refine ⟨?_, sizes_realloc hsizes hpossible hok rfl⟩
      intro hmem hne
      exact RecordMap.eq_none_of_sizes hsizes ((hpossible.2 hmem).resolve_left hne)
  | free mem =>
      refine ⟨trivial, ?_⟩
      rw [engineOp, EngineOp.applyMap, RecordMap.sizes_free, hsizes]
      rfl
  | _ => exact hheap.elim

end HookCall

/-! ## Whole runs -/

namespace World

variable {U R : Type*} [CallStackUnwinder U R]

/-- The engine stands for a map whose records are the blocks. -/
def Tracks (world : World U) : Prop :=
  ∃ m : RecordMap, world.engine.Refines m ∧ m.sizes = world.blocks

theorem Tracks.call {world : World U} (h : world.Tracks) {call : Context R × HookCall}
    (hheap : call.2.IsHeap) (hpossible : call.2.Possible world.blocks)
    (hok : ¬ call.2.FailedRealloc) : (world.call call).Tracks := by
  obtain ⟨m, hrefines, hsizes⟩ := h
  obtain ⟨hadmissible, hafter⟩ := HookCall.step_sizes call.1 hheap hpossible hok hsizes
  refine ⟨(call.2.engineOp call.1).applyMap m, ?_, hafter⟩
  rw [World.call, HookCall.hook_eq_engineOp]
  exact hrefines.apply hadmissible

theorem Tracks.run {world : World U} (h : world.Tracks) {calls : List (Context R × HookCall)}
    (hheap : ∀ call ∈ calls, call.2.IsHeap) (hpossible : PossibleFrom world.blocks calls)
    (hok : ∀ call ∈ calls, ¬ call.2.FailedRealloc) : (world.run calls).Tracks := by
  have halong := (Run.Along.of_forall hheap).and (hpossible.along.and (Run.Along.of_forall hok))
  exact Run.invariant (fun h hcall => h.call hcall.1 hcall.2.1 hcall.2.2) h halong

/-- **No live heap block is forgotten**, as long as no `realloc` fails.  After any
run of the five heap hooks, with every other outcome of the underlying calls, each
allocated block has a record in the cache or the storage with its current size. -/
theorem live_block_recorded (withStorage : Bool) (unwinder : U) (timeout : Int64)
    (maxItems : UInt64) (policy : CallStackUnwindProcInfoPolicy)
    (calls : List (Context R × HookCall)) (hheap : ∀ call ∈ calls, call.2.IsHeap)
    (hpossible : PossibleFrom (fun _ => none) calls)
    (hok : ∀ call ∈ calls, ¬ call.2.FailedRealloc) :
    let world := (initial withStorage unwinder timeout maxItems policy).run calls
    ∀ address size, world.blocks address = some size →
      ∃ record, world.engine.record? address = some record ∧ record.memsize = size := by
  intro world address size hblock
  have hinitial : (initial withStorage unwinder timeout maxItems policy).Tracks :=
    ⟨_, refines_initial withStorage unwinder timeout maxItems policy, rfl⟩
  obtain ⟨m, hrefines, hsizes⟩ := hinitial.run hheap hpossible hok
  have hrecord : (m address).map Record.memsize = some size :=
    (congrFun hsizes address).trans hblock
  rw [← hrefines.get_eq address] at hrecord
  exact Option.map_eq_some_iff.mp hrecord

/-- Allocate, grow in place, move, fail to allocate, release. -/
def sampleCalls : List (Context Resolver × HookCall) :=
  [(⟨1, [], .silent⟩, .malloc 100 16), (⟨2, [], .silent⟩, .realloc 16 120 16),
    (⟨3, [], .silent⟩, .realloc 16 400 64), (⟨4, [], .silent⟩, .calloc 3 8 0),
    (⟨5, [], .silent⟩, .memalign 32 16), (⟨6, [], .silent⟩, .realloc 16 0 0)]

theorem live_block_recorded_sampleCalls :
    ((initial true Impl.Usable.initial 0 1 .kFlushLocalCacheWhen).run sampleCalls).blocks 64 =
        some 400 ∧
      ∃ record, ((initial true Impl.Usable.initial 0 1 .kFlushLocalCacheWhen).run
        sampleCalls).engine.record? 64 = some record ∧ record.memsize = 400 := by
  have hblock : ((initial true Impl.Usable.initial 0 1 .kFlushLocalCacheWhen).run
      sampleCalls).blocks 64 = some 400 := by decide
  refine ⟨hblock, live_block_recorded true Impl.Usable.initial 0 1 .kFlushLocalCacheWhen
    sampleCalls ?_ ?_ ?_ 64 400 hblock⟩
  · simp [sampleCalls, HookCall.IsHeap]
  · refine ⟨?_, ?_, ?_, ?_, ?_, ?_, trivial⟩ <;> simp only [HookCall.Possible] <;> decide
  · simp [sampleCalls, HookCall.FailedRealloc]

/-- A `realloc` to a larger size that fails. -/
def failedReallocCalls : List (Context Resolver × HookCall) :=
  [(⟨1, [], .silent⟩, .malloc 100 16), (⟨2, [], .silent⟩, .realloc 16 200 0)]

/-- The block of 100 bytes is still allocated after a failed `realloc`, and has no
record any more. -/
theorem failed_realloc_forgets :
    (∀ call ∈ failedReallocCalls, call.2.IsHeap) ∧
      PossibleFrom (fun _ => none) failedReallocCalls ∧
      ((initial true Impl.Usable.initial 2 1 .kFlushLocalCacheWhen).run
        failedReallocCalls).blocks 16 = some 100 ∧
      ((initial true Impl.Usable.initial 2 1 .kFlushLocalCacheWhen).run
        failedReallocCalls).engine.record? 16 = none := by
  refine ⟨?_, ?_, by decide, by decide⟩
  · simp [failedReallocCalls, HookCall.IsHeap]
  · refine ⟨?_, ?_, trivial⟩ <;> simp only [HookCall.Possible] <;> decide

end World

end Memhook
