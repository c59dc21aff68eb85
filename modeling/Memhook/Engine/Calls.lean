import Memhook.Engine.Refinement

/-!
# What the engine asks of its storage

The engine calls `Add`, `Remove`, `UpdateSize` and `Flush` and reads nothing back: it drops
the results of `Remove` and `UpdateSize`.  So a map between storages that respects these four
operations can be applied before a run or after it (`run_mapStorage`).

`CallLog` is a storage that only takes down its calls.  Every other storage is what its calls
make of it, so the engine over any storage is the engine over the log, replayed.
-/

namespace Memhook

open MultiIndex

variable {U R : Type*} [CallStackUnwinder U R] {S S' : Type} [MappedStorage S] [MappedStorage S']

/-- The map respects what the engine uses of a storage. -/
structure StorageHom (f : S → S') : Prop where
  add : ∀ storage address memsize callstack timestamp,
    f (MappedStorage.add storage address memsize callstack timestamp) =
      MappedStorage.add (f storage) address memsize callstack timestamp
  remove : ∀ storage address,
    f (MappedStorage.remove storage address).1 = (MappedStorage.remove (f storage) address).1
  updateSize : ∀ storage address memsize,
    f (MappedStorage.updateSize storage address memsize).1 =
      (MappedStorage.updateSize (f storage) address memsize).1
  flush : ∀ storage, f (MappedStorage.flush storage) = MappedStorage.flush (f storage)

namespace Engine

/-- The engine over another storage. -/
def mapStorage (f : S → S') (engine : Engine U S) : Engine U S' :=
  ⟨engine.storage.map f, engine.cache, engine.callstackUnwinder, engine.cacheFlushTimeout,
    engine.cacheFlushMaxItems, engine.getprocinfoPolicy⟩

section Hom

variable {f : S → S'} (hf : StorageHom f)

include hf

theorem dump_map (resolver : R) (policy : CallStackUnwindProcInfoPolicy) (batch : List TraceInfo)
    (unwinder : U) (storage : S) :
    dump resolver policy batch unwinder (f storage) =
      ((dump resolver policy batch unwinder storage).1,
        f (dump resolver policy batch unwinder storage).2) := by
  induction batch generalizing unwinder storage with
  | nil => rfl
  | cons info rest ih =>
      simp only [dump]
      rw [← hf.add, ih]

theorem flushLocalCache_mapStorage (ctx : Context R) (now : TimePoint) (timeout : Int64)
    (dumpAll : Bool) (engine : Engine U S) :
    (engine.mapStorage f).flushLocalCache ctx now timeout dumpAll =
      (engine.flushLocalCache ctx now timeout dumpAll).mapStorage f := by
  have hbatch : (engine.mapStorage f).flushBatch now timeout dumpAll =
      engine.flushBatch now timeout dumpAll := rfl
  cases hstorage : engine.storage with
  | none => simp [flushLocalCache, mapStorage, hstorage]
  | some storage =>
      have hmapped : (engine.mapStorage f).storage = some (f storage) := by
        simp [mapStorage, hstorage]
      simp only [flushLocalCache, hmapped, hstorage, hbatch]
      rw [show (engine.mapStorage f).getprocinfoPolicy = engine.getprocinfoPolicy from rfl,
        show (engine.mapStorage f).callstackUnwinder = engine.callstackUnwinder from rfl,
        dump_map hf]
      simp only [mapStorage, Option.map_some]
      split
      · rw [hf.flush]
      · rfl

theorem doHookAlloc_mapStorage (ctx : Context R) (mem : Address) (memsize : UInt64)
    (engine : Engine U S) :
    (engine.mapStorage f).doHookAlloc ctx mem memsize =
      (engine.doHookAlloc ctx mem memsize).mapStorage f := by
  unfold doHookAlloc
  split
  · rfl
  · rw [← flushLocalCache_mapStorage hf]
    rfl

theorem doHookFree_mapStorage (mem : Address) (engine : Engine U S) :
    (engine.mapStorage f).doHookFree mem = (engine.doHookFree mem).mapStorage f := by
  have hcache : (engine.mapStorage f).cache = engine.cache := rfl
  unfold doHookFree
  rw [hcache]
  split
  · rfl
  · split
    · rfl
    · cases hstorage : engine.storage <;> simp [mapStorage, hstorage, hf.remove]

theorem doHookUpdateSize_mapStorage (mem : Address) (newsize : UInt64) (engine : Engine U S) :
    (engine.mapStorage f).doHookUpdateSize mem newsize =
      (engine.doHookUpdateSize mem newsize).mapStorage f := by
  have hcache : (engine.mapStorage f).cache = engine.cache := rfl
  unfold doHookUpdateSize
  rw [hcache]
  split
  · rfl
  · split
    · rfl
    · cases hstorage : engine.storage <;> simp [mapStorage, hstorage, hf.updateSize]

theorem doHookRealloc_mapStorage (ctx : Context R) (oldMem newMem : Address) (newSize : UInt64)
    (engine : Engine U S) :
    (engine.mapStorage f).doHookRealloc ctx oldMem newMem newSize =
      (engine.doHookRealloc ctx oldMem newMem newSize).mapStorage f := by
  unfold doHookRealloc
  split
  · exact doHookUpdateSize_mapStorage hf oldMem newSize engine
  · rw [doHookFree_mapStorage hf, doHookAlloc_mapStorage hf]

theorem apply_mapStorage (op : EngineOp R) (engine : Engine U S) :
    op.apply (engine.mapStorage f) = (op.apply engine).mapStorage f := by
  cases op with
  | alloc ctx mem memsize => exact doHookAlloc_mapStorage hf ctx mem memsize engine
  | free mem => exact doHookFree_mapStorage hf mem engine
  | realloc ctx oldMem newMem newSize =>
      exact doHookRealloc_mapStorage hf ctx oldMem newMem newSize engine
  | updateSize mem newsize => exact doHookUpdateSize_mapStorage hf mem newsize engine

/-- A whole run does not look at the storage. -/
theorem run_mapStorage (ops : List (EngineOp R)) (engine : Engine U S) :
    (engine.mapStorage f).run ops = (engine.run ops).mapStorage f := by
  induction ops generalizing engine with
  | nil => rfl
  | cons op rest ih =>
      show run (op.apply (engine.mapStorage f)) rest = _
      rw [apply_mapStorage hf, ih]
      rfl

theorem onDestroy_mapStorage (ctx : Context R) (engine : Engine U S) :
    ((engine.mapStorage f).onDestroy ctx).2 = (engine.onDestroy ctx).2.map f := by
  unfold onDestroy
  rw [flushLocalCache_mapStorage hf]
  rfl

end Hom

end Engine

/-! ## The log -/

/-- A storage that takes down its calls. -/
structure CallLog where
  calls : List StorageCall

namespace CallLog

def push (call : StorageCall) (log : CallLog) : CallLog := ⟨log.calls ++ [call]⟩

instance : MappedStorage CallLog where
  add log address memsize callstack timestamp := log.push (.add address memsize callstack timestamp)
  remove log address := (log.push (.remove address), true)
  updateSize log address memsize := (log.push (.updateSize address memsize), true)
  clear log := log.push .clear
  flush log := log.push .flush

/-- The calls are made on a storage. -/
def replay (storage : S) (log : CallLog) : S := log.calls.foldl StorageCall.apply storage

theorem replay_push (storage : S) (call : StorageCall) (log : CallLog) :
    (log.push call).replay storage = call.apply (log.replay storage) := by
  simp [replay, push]

theorem storageHom_replay (storage : S) : StorageHom (replay storage) where
  add log address memsize callstack timestamp :=
    replay_push storage (.add address memsize callstack timestamp) log
  remove log address := replay_push storage (.remove address) log
  updateSize log address memsize := replay_push storage (.updateSize address memsize) log
  flush log := replay_push storage .flush log

end CallLog

namespace Engine

/-- The storage at the end of an engine that starts with it, serves the calls and is
destroyed. -/
def lifetime (storage : S) (unwinder : U) (timeout : Int64) (maxItems : UInt64)
    (policy : CallStackUnwindProcInfoPolicy) (ops : List (EngineOp R)) (ctx : Context R) :
    Option S :=
  (((onInitialize (some storage) unwinder timeout maxItems policy).run ops).onDestroy ctx).2

/-- Whatever the storage is, the calls on it are those on the log. -/
theorem lifetime_eq_replay (storage : S) (unwinder : U) (timeout : Int64) (maxItems : UInt64)
    (policy : CallStackUnwindProcInfoPolicy) (ops : List (EngineOp R)) (ctx : Context R) :
    lifetime storage unwinder timeout maxItems policy ops ctx =
      (lifetime (⟨[]⟩ : CallLog) unwinder timeout maxItems policy ops ctx).map
        (CallLog.replay storage) := by
  have hinit : onInitialize (some storage) unwinder timeout maxItems policy =
      (onInitialize (some (⟨[]⟩ : CallLog)) unwinder timeout maxItems policy).mapStorage
        (CallLog.replay storage) := rfl
  unfold lifetime
  rw [hinit, run_mapStorage (CallLog.storageHom_replay storage),
    onDestroy_mapStorage (CallLog.storageHom_replay storage)]

end Engine

end Memhook
