import Memhook.Engine.Engine
import Memhook.Lib.TwoLevel

/-!
# The engine, one address at a time

The cache and a `BasicMappedStorage` behind it, read at one address, are a
two-level cell.  This file says what each engine operation does to the cell of
every address, and nothing after it opens an engine operation again:

* `settles_flushLocalCache`: a flush lets some cells sink and changes nothing
  else, whatever the clock, the timeout and the item limit are;
* `cell_doHookFree` and `cell_doHookUpdateSize` act on the cell of their own
  address;
* `settles_doHookAlloc`: an announcement inserts at its own address and then
  flushes.
-/

namespace Memhook

open MultiIndex TwoLevel

variable {U R : Type*} [CallStackUnwinder U R]

/-- What an announcement at this moment records. -/
def Context.announced (ctx : Context R) (memsize : UInt64) : Record :=
  ⟨memsize, ctx.now, (walk ctx.frames 2).map Frame.ip⟩

namespace Engine

/-- The records of the two levels under an address. -/
def cell (engine : Engine U BasicMappedStorage) (address : Address) : Cell Record :=
  ⟨(engine.cache.find? address).map TraceInfo.toRecord,
    engine.storage.bind fun storage => storage.record? address⟩

/-- The record of an address, wherever it is. -/
def record? (engine : Engine U BasicMappedStorage) (address : Address) : Option Record :=
  (engine.cell address).get

/-! ## Call stacks -/

private theorem map_ip (callstack : CallStackInfo) :
    callstack.map CallStackInfoItem.ip =
      (callstack.map CallStackInfoItem.frame).map Frame.ip := by
  rw [List.map_map]
  rfl

private theorem ips_getCallStackInfo (ctx : Context R) (unwinder : U) (need : Bool) :
    (CallStackUnwinder.getCallStackInfo ctx.resolver unwinder ctx.frames 2 need).1.map
      CallStackInfoItem.ip = (walk ctx.frames 2).map Frame.ip := by
  rw [map_ip, CallStackUnwinder.frames_getCallStackInfo]

private theorem ips_getCallStackUnwindProcInfo (resolver : R) (unwinder : U)
    (callstack : CallStackInfo) :
    (CallStackUnwinder.getCallStackUnwindProcInfo resolver unwinder callstack).1.map
      CallStackInfoItem.ip = callstack.map CallStackInfoItem.ip := by
  rw [map_ip, CallStackUnwinder.frames_getCallStackUnwindProcInfo, ← map_ip]

/-! ## Flushing -/

/-- The batch is an initial run of the timestamp index. -/
theorem flushBatch_eq_take (now : TimePoint) (timeout : Int64) (dumpAll : Bool)
    (engine : Engine U BasicMappedStorage) :
    engine.flushBatch now timeout dumpAll =
      engine.cache.items.take (engine.flushBatch now timeout dumpAll).length := by
  have hprefix : engine.flushBatch now timeout dumpAll <+: engine.cache.items := by
    unfold flushBatch
    split
    · exact List.prefix_refl _
    · exact (List.take_prefix _ _).trans (List.takeWhile_prefix _)
  exact List.prefix_iff_eq_take.mp hprefix

/-- Every record of the batch that finds its address free is added. -/
theorem record?_dump (resolver : R) (policy : CallStackUnwindProcInfoPolicy)
    (batch : List TraceInfo) (unwinder : U) (storage : BasicMappedStorage) (address : Address) :
    (dump resolver policy batch unwinder storage).2.record? address =
      (storage.record? address).or
        ((batch.find? fun info => decide (info.key = address)).map TraceInfo.toRecord) := by
  induction batch generalizing unwinder storage with
  | nil => simp [dump]
  | cons info rest ih =>
      have hadd : ∀ callstack : CallStackInfo,
          callstack.map CallStackInfoItem.ip = info.callstack.map CallStackInfoItem.ip →
          (MappedStorage.add storage info.address info.memsize callstack
              info.timestamp).record? address =
            (storage.record? address).or
              (if info.key = address then some info.toRecord else none) := by
        intro callstack hips
        rw [show MappedStorage.add storage info.address info.memsize callstack info.timestamp =
          storage.add info.address info.memsize callstack info.timestamp from rfl,
          BasicMappedStorage.record?_add, hips]
        rfl
      -- resolving the symbols before the record is added changes no instruction pointer
      have hresolved : ∀ resolved : CallStackInfo × U,
          resolved.1.map CallStackInfoItem.ip = info.callstack.map CallStackInfoItem.ip →
          (dump resolver policy rest resolved.2 (MappedStorage.add storage info.address
              info.memsize resolved.1 info.timestamp)).2.record? address =
            (storage.record? address).or
              (((info :: rest).find? fun info => decide (info.key = address)).map
                TraceInfo.toRecord) := by
        intro resolved hips
        rw [ih, hadd resolved.1 hips]
        by_cases hkey : info.key = address
        · cases storage.record? address <;> simp [hkey]
        · simp [hkey]
      simp only [dump]
      split
      · exact hresolved _ (ips_getCallStackUnwindProcInfo _ _ _)
      · exact hresolved (info.callstack, unwinder) rfl

/-- **What a flush does.**  The cells of the batch sink; all others stay. -/
theorem cell_flushLocalCache (ctx : Context R) (now : TimePoint) (timeout : Int64)
    (dumpAll : Bool) (engine : Engine U BasicMappedStorage) (address : Address) :
    (engine.flushLocalCache ctx now timeout dumpAll).cell address =
      if engine.storage.isSome ∧
          address ∈ (engine.flushBatch now timeout dumpAll).map TraceInfo.key then
        (engine.cell address).sink
      else engine.cell address := by
  unfold flushLocalCache
  cases hstorage : engine.storage with
  | none => simp
  | some storage =>
      have htake := flushBatch_eq_take now timeout dumpAll engine
      generalize engine.flushBatch now timeout dumpAll = batch at htake
      -- there is nothing to flush in a mapped storage
      have hflush : ∀ dumped : BasicMappedStorage,
          (if batch.length ≠ 0 then MappedStorage.flush dumped else dumped) = dumped := by
        intro dumped
        split <;> rfl
      have hfind : batch.find? (fun info => decide (info.key = address)) =
          if address ∈ batch.map TraceInfo.key then engine.cache.find? address else none := by
        rw [htake]
        exact engine.cache.find?_take batch.length address
      simp only [cell, hflush, Option.bind_some, record?_dump, hfind, Container.find?_dropFront,
        ← htake, hstorage, Option.isSome_some, true_and]
      split <;> simp [Cell.sink]

theorem settles_flushLocalCache (ctx : Context R) (now : TimePoint) (timeout : Int64)
    (dumpAll : Bool) (engine : Engine U BasicMappedStorage) (address : Address) :
    (engine.cell address).Settles
      ((engine.flushLocalCache ctx now timeout dumpAll).cell address) := by
  rw [cell_flushLocalCache]
  split
  · exact Or.inr rfl
  · exact Or.inl rfl

/-! ## The operations -/

@[simp] theorem doHookAlloc_null (ctx : Context R) (memsize : UInt64)
    (engine : Engine U BasicMappedStorage) : engine.doHookAlloc ctx 0 memsize = engine := by
  simp [doHookAlloc]

@[simp] theorem doHookFree_null (engine : Engine U BasicMappedStorage) :
    engine.doHookFree 0 = engine := by
  simp [doHookFree]

@[simp] theorem doHookUpdateSize_null (newsize : UInt64) (engine : Engine U BasicMappedStorage) :
    engine.doHookUpdateSize 0 newsize = engine := by
  simp [doHookUpdateSize]

/-- The storage level after `Remove`; without a storage there is nothing to remove. -/
private theorem lower_remove (storage : Option BasicMappedStorage) (mem address : Address) :
    ((storage.map fun storage => (MappedStorage.remove storage mem).1).bind
        fun storage => storage.record? address) =
      if address = mem then none else storage.bind fun storage => storage.record? address := by
  cases storage with
  | none => simp
  | some storage => exact BasicMappedStorage.record?_remove storage mem address

private theorem lower_updateSize (storage : Option BasicMappedStorage) (mem address : Address)
    (newsize : UInt64) :
    ((storage.map fun storage => (MappedStorage.updateSize storage mem newsize).1).bind
        fun storage => storage.record? address) =
      if address = mem then
        (storage.bind fun storage => storage.record? address).map (Record.resize newsize)
      else storage.bind fun storage => storage.record? address := by
  cases storage with
  | none => simp
  | some storage => exact BasicMappedStorage.record?_updateSize storage mem newsize address

theorem cell_doHookFree {mem : Address} (hmem : mem ≠ 0)
    (engine : Engine U BasicMappedStorage) (address : Address) :
    (engine.doHookFree mem).cell address =
      if address = mem then (engine.cell address).discard else engine.cell address := by
  unfold doHookFree
  rw [if_neg hmem]
  split
  next info hfind =>
    -- the record is cached: the storage is not asked
    simp only [cell, Container.find?_erase]
    split
    next heq =>
      subst heq
      simp [Cell.discard, hfind]
    next => rfl
  next hfind =>
    simp only [cell, lower_remove]
    split
    next heq =>
      subst heq
      simp [Cell.discard, hfind]
    next => rfl

theorem cell_doHookUpdateSize {mem : Address} (hmem : mem ≠ 0) (newsize : UInt64)
    (engine : Engine U BasicMappedStorage) (address : Address) :
    (engine.doHookUpdateSize mem newsize).cell address =
      if address = mem then (engine.cell address).rewrite (Record.resize newsize)
      else engine.cell address := by
  unfold doHookUpdateSize
  rw [if_neg hmem]
  split
  next info hfind =>
    simp only [cell, Container.find?_modify]
    split
    next heq =>
      subst heq
      simp [Cell.rewrite, hfind]
    next => rfl
  next hfind =>
    simp only [cell, lower_updateSize]
    split
    next heq =>
      subst heq
      simp [Cell.rewrite, hfind]
    next => rfl

/-- The cache after `emplace` and the swap of the call stack. -/
private theorem find?_emplaced (ctx : Context R) (mem : Address) (memsize : UInt64)
    (callstack : CallStackInfo) (cache : CachedRecords) (address : Address) :
    ((if (cache.emplace ⟨⟨mem, memsize, ctx.now⟩, []⟩).2 then
        (cache.emplace ⟨⟨mem, memsize, ctx.now⟩, []⟩).1.modify mem
          (TraceInfo.setCallstack callstack) (TraceInfo.key_setCallstack callstack)
          (TraceInfo.stamp_setCallstack callstack)
      else (cache.emplace ⟨⟨mem, memsize, ctx.now⟩, []⟩).1).find? address) =
      (cache.find? address).or
        (if address = mem then some ⟨⟨mem, memsize, ctx.now⟩, callstack⟩ else none) := by
  have hkey : (⟨⟨mem, memsize, ctx.now⟩, []⟩ : TraceInfo).key = mem := rfl
  rw [Container.emplace_snd, hkey]
  by_cases heq : address = mem
  · subst heq
    cases hfind : cache.find? address with
    | some info =>
        simp [Container.find?_emplace, hfind]
    | none =>
        simp [Container.find?_modify, Container.find?_emplace, hfind, hkey,
          TraceInfo.setCallstack]
  · have hne : mem ≠ address := fun h => heq h.symm
    cases hfind : cache.find? mem with
    | some info => simp [Container.find?_emplace, hkey, heq, hne]
    | none => simp [Container.find?_modify, Container.find?_emplace, hkey, heq, hne]

theorem settles_doHookAlloc {mem : Address} (hmem : mem ≠ 0) (ctx : Context R) (memsize : UInt64)
    (engine : Engine U BasicMappedStorage) (address : Address) :
    (if address = mem then (engine.cell address).announce (ctx.announced memsize)
      else engine.cell address).Settles ((engine.doHookAlloc ctx mem memsize).cell address) := by
  -- the engine between the insertion and the flush, whatever the unwinder answered
  have hcell : ∀ (unwound : CallStackInfo × U),
      unwound.1.map CallStackInfoItem.ip = (walk ctx.frames 2).map Frame.ip →
      cell (U := U) { engine with
        callstackUnwinder := unwound.2
        cache :=
          if (engine.cache.emplace ⟨⟨mem, memsize, ctx.now⟩, []⟩).2 then
            (engine.cache.emplace ⟨⟨mem, memsize, ctx.now⟩, []⟩).1.modify mem
              (TraceInfo.setCallstack unwound.1) (TraceInfo.key_setCallstack unwound.1)
              (TraceInfo.stamp_setCallstack unwound.1)
          else (engine.cache.emplace ⟨⟨mem, memsize, ctx.now⟩, []⟩).1 } address =
        if address = mem then (engine.cell address).announce (ctx.announced memsize)
        else engine.cell address := by
    intro unwound hips
    simp only [cell, find?_emplaced ctx]
    split
    next heq =>
      cases hfind : engine.cache.find? address <;>
        simp [Cell.announce, TraceInfo.toRecord, Context.announced, hips]
    next => simp
  unfold doHookAlloc
  rw [if_neg hmem, ← hcell _ (ips_getCallStackInfo ctx engine.callstackUnwinder _)]
  exact settles_flushLocalCache ctx ctx.now engine.cacheFlushTimeout false _ address

/-! ## The storage stays -/

@[simp] theorem isSome_storage_flushLocalCache (ctx : Context R) (now : TimePoint)
    (timeout : Int64) (dumpAll : Bool) (engine : Engine U BasicMappedStorage) :
    (engine.flushLocalCache ctx now timeout dumpAll).storage.isSome = engine.storage.isSome := by
  unfold flushLocalCache
  split
  next hstorage => rfl
  next storage hstorage => rw [hstorage]; rfl

@[simp] theorem isSome_storage_doHookFree (mem : Address)
    (engine : Engine U BasicMappedStorage) :
    (engine.doHookFree mem).storage.isSome = engine.storage.isSome := by
  unfold doHookFree
  split
  · rfl
  · split
    · rfl
    · simp

@[simp] theorem isSome_storage_doHookUpdateSize (mem : Address) (newsize : UInt64)
    (engine : Engine U BasicMappedStorage) :
    (engine.doHookUpdateSize mem newsize).storage.isSome = engine.storage.isSome := by
  unfold doHookUpdateSize
  split
  · rfl
  · split
    · rfl
    · simp

@[simp] theorem isSome_storage_doHookAlloc (ctx : Context R) (mem : Address) (memsize : UInt64)
    (engine : Engine U BasicMappedStorage) :
    (engine.doHookAlloc ctx mem memsize).storage.isSome = engine.storage.isSome := by
  unfold doHookAlloc
  split
  · rfl
  · simp

@[simp] theorem isSome_storage_doHookRealloc (ctx : Context R) (oldMem newMem : Address)
    (newSize : UInt64) (engine : Engine U BasicMappedStorage) :
    (engine.doHookRealloc ctx oldMem newMem newSize).storage.isSome = engine.storage.isSome := by
  unfold doHookRealloc
  split <;> simp

end Engine

end Memhook
