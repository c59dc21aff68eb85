import Memhook.Engine.CallStackUnwinder

/-!
# The engine

The two-level store of `src/memhook/engine.cpp`: a cache of recent records in
front of a storage, and the operations the hooks call on it.  A call reads three
things from its surroundings, which `Context` collects: the clock, the frames of
the calling thread, and the answers of libunwind and `dladdr`.

`FlushLocalCache` moves the oldest records from the cache to the storage.  Its
`lower_bound` on the timestamp index is the end of the longest run of records
that are strictly older than `now - timeout`, because the index is sorted.
-/

namespace Memhook

open MultiIndex

/-- `Engine::CallStackUnwindProcInfoPolicy`. -/
inductive CallStackUnwindProcInfoPolicy
  | kUnwindCallStackWhen
  | kFlushLocalCacheWhen
  deriving DecidableEq, Repr

/-- `Engine::IndexedContainer`. -/
abbrev CachedRecords := Container TraceInfo.key TraceInfo.stamp

/-- What a call reads from its surroundings. -/
structure Context (R : Type*) where
  now : TimePoint
  frames : List Frame
  resolver : R

/-- `chrono::seconds` as the nanoseconds of the system clock. -/
def nanoseconds (seconds : Int64) : Int64 := seconds * 1000000000

structure Engine (U S : Type*) where
  storage : Option S
  cache : CachedRecords
  callstackUnwinder : U
  cacheFlushTimeout : Int64
  cacheFlushMaxItems : UInt64
  getprocinfoPolicy : CallStackUnwindProcInfoPolicy

namespace Engine

variable {U R S : Type*} [CallStackUnwinder U R] [MappedStorage S]

/-- The engine as `OnInitialize` leaves it, for any storage and any settings
read from the environment. -/
def onInitialize (storage : Option S) (unwinder : U) (timeout : Int64) (maxItems : UInt64)
    (policy : CallStackUnwindProcInfoPolicy) : Engine U S :=
  ⟨storage, Container.empty, unwinder, timeout, maxItems, policy⟩

/-- The records `FlushLocalCache` visits, in the order of the timestamp index. -/
def flushBatch (now : TimePoint) (timeout : Int64) (dumpAll : Bool) (engine : Engine U S) :
    List TraceInfo :=
  if dumpAll then engine.cache.items
  else
    -- up to the lower bound, and `m_cache_flush_max_items` at most
    (engine.cache.items.takeWhile fun info =>
      decide (info.stamp < (now - nanoseconds timeout).toInt)).take engine.cacheFlushMaxItems.toNat

/-- The loop of `FlushLocalCache`. -/
def dump (resolver : R) (policy : CallStackUnwindProcInfoPolicy) :
    List TraceInfo → U → S → U × S
  | [], unwinder, storage => (unwinder, storage)
  | info :: rest, unwinder, storage =>
      let resolved :=
        if policy = .kFlushLocalCacheWhen then
          CallStackUnwinder.getCallStackUnwindProcInfo resolver unwinder info.callstack
        else (info.callstack, unwinder)
      dump resolver policy rest resolved.2
        (MappedStorage.add storage info.address info.memsize resolved.1 info.timestamp)

def flushLocalCache (ctx : Context R) (now : TimePoint) (timeout : Int64) (dumpAll : Bool)
    (engine : Engine U S) : Engine U S :=
  match engine.storage with
  | none => engine
  | some storage =>
      let batch := engine.flushBatch now timeout dumpAll
      let dumped := dump ctx.resolver engine.getprocinfoPolicy batch engine.callstackUnwinder
        storage
      { engine with
        storage := some (if batch.length ≠ 0 then MappedStorage.flush dumped.2 else dumped.2)
        callstackUnwinder := dumped.1
        cache := engine.cache.dropFront batch.length }

def doHookAlloc (ctx : Context R) (mem : Address) (memsize : UInt64) (engine : Engine U S) :
    Engine U S :=
  if mem = 0 then engine
  else
    let unwound := CallStackUnwinder.getCallStackInfo ctx.resolver engine.callstackUnwinder
      ctx.frames 2 (engine.getprocinfoPolicy = .kUnwindCallStackWhen)
    -- a record that is already cached stays as it is, with its own call stack
    let status := engine.cache.emplace ⟨⟨mem, memsize, ctx.now⟩, []⟩
    let cache :=
      if status.2 then
        status.1.modify mem (TraceInfo.setCallstack unwound.1)
          (TraceInfo.key_setCallstack unwound.1) (TraceInfo.stamp_setCallstack unwound.1)
      else status.1
    flushLocalCache ctx ctx.now engine.cacheFlushTimeout false
      { engine with callstackUnwinder := unwound.2, cache := cache }

def doHookFree (mem : Address) (engine : Engine U S) : Engine U S :=
  if mem = 0 then engine
  else
    match engine.cache.find? mem with
    -- the storage is asked only about what is not cached
    | some _ => { engine with cache := engine.cache.erase mem }
    | none =>
        { engine with
          storage := engine.storage.map fun storage => (MappedStorage.remove storage mem).1 }

def doHookUpdateSize (mem : Address) (newsize : UInt64) (engine : Engine U S) : Engine U S :=
  if mem = 0 then engine
  else
    match engine.cache.find? mem with
    | some _ =>
        { engine with
          cache := engine.cache.modify mem (TraceInfo.resize newsize)
            (TraceInfo.key_resize newsize) (TraceInfo.stamp_resize newsize) }
    | none =>
        { engine with
          storage := engine.storage.map fun storage =>
            (MappedStorage.updateSize storage mem newsize).1 }

def doHookRealloc (ctx : Context R) (oldMem newMem : Address) (newSize : UInt64)
    (engine : Engine U S) : Engine U S :=
  if oldMem = newMem then engine.doHookUpdateSize oldMem newSize
  else (engine.doHookFree oldMem).doHookAlloc ctx newMem newSize

/-- `DoFlushCallStackCache`. -/
def doFlushCallStackCache (engine : Engine Impl.Usable S) : Engine Impl.Usable S :=
  { engine with callstackUnwinder := engine.callstackUnwinder.flushCallStackCache }

/-- `OnDestroy` writes out the whole cache and gives the storage up; the second
component is the storage as it is given up. -/
def onDestroy (ctx : Context R) (engine : Engine U S) : Engine U S × Option S :=
  let flushed := engine.flushLocalCache ctx ctx.now 0 true
  ({ flushed with storage := none }, flushed.storage)

end Engine

end Memhook
