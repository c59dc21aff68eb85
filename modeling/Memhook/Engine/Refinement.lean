import Memhook.Engine.Cells
import Memhook.Lib.Run

/-!
# The engine refines one map

The abstract engine is a single map from addresses to records: an announcement
inserts, a release erases, a resize changes the size, and `NULL` is ignored.  The
real engine keeps each record in the cache or in the storage, depending on clock
readings and limits; this file shows that nobody can tell.

The simulation needs one promise of the caller, `EngineOp.Admissible`: an address
is announced only while the map has no record of it.
-/

namespace Memhook

open MultiIndex TwoLevel

/-- The abstract engine. -/
abbrev RecordMap := Address → Option Record

namespace RecordMap

def alloc (mem : Address) (record : Record) (m : RecordMap) : RecordMap :=
  if mem = 0 then m else Function.update m mem (some record)

def free (mem : Address) (m : RecordMap) : RecordMap :=
  if mem = 0 then m else Function.update m mem none

def updateSize (mem : Address) (size : UInt64) (m : RecordMap) : RecordMap :=
  if mem = 0 then m else Function.update m mem ((m mem).map (Record.resize size))

def realloc (oldMem newMem : Address) (record : Record) (m : RecordMap) : RecordMap :=
  if oldMem = newMem then m.updateSize oldMem record.memsize
  else (m.free oldMem).alloc newMem record

end RecordMap

/-- The calls of the hooks on the engine, with what they read. -/
inductive EngineOp (R : Type*)
  | alloc (ctx : Context R) (mem : Address) (memsize : UInt64)
  | free (mem : Address)
  | realloc (ctx : Context R) (oldMem newMem : Address) (newSize : UInt64)
  | updateSize (mem : Address) (newsize : UInt64)

variable {U R : Type*} [CallStackUnwinder U R]

namespace EngineOp

def apply {S : Type*} [MappedStorage S] (engine : Engine U S) : EngineOp R → Engine U S
  | alloc ctx mem memsize => engine.doHookAlloc ctx mem memsize
  | free mem => engine.doHookFree mem
  | realloc ctx oldMem newMem newSize => engine.doHookRealloc ctx oldMem newMem newSize
  | updateSize mem newsize => engine.doHookUpdateSize mem newsize

/-- The same call on the abstract engine. -/
def applyMap (m : RecordMap) : EngineOp R → RecordMap
  | alloc ctx mem memsize => m.alloc mem (ctx.announced memsize)
  | free mem => m.free mem
  | realloc ctx oldMem newMem newSize => m.realloc oldMem newMem (ctx.announced newSize)
  | updateSize mem newsize => m.updateSize mem newsize

/-- A non-`NULL` address is announced only while it is not recorded. -/
def Admissible (m : RecordMap) : EngineOp R → Prop
  | alloc _ mem _ => mem ≠ 0 → m mem = none
  | realloc _ oldMem newMem _ => newMem ≠ 0 → newMem ≠ oldMem → m newMem = none
  | _ => True

end EngineOp

namespace Engine

def run {S : Type*} [MappedStorage S] (engine : Engine U S) (ops : List (EngineOp R)) :
    Engine U S :=
  ops.foldl EngineOp.apply engine

/-- The abstract engine after the same calls, from the empty map. -/
def runMap (ops : List (EngineOp R)) : RecordMap := ops.foldl EngineOp.applyMap fun _ => none

/-- Every call of the run is admissible when it is made. -/
def AdmissibleFrom (m : RecordMap) (ops : List (EngineOp R)) : Prop :=
  Run.Along EngineOp.applyMap EngineOp.Admissible m ops

abbrev AdmissibleRun (ops : List (EngineOp R)) : Prop := AdmissibleFrom (fun _ => none) ops

/-- The engine stands for the map. -/
abbrev Refines (engine : Engine U BasicMappedStorage) (m : RecordMap) : Prop :=
  TwoLevel.Refines engine.cell m

/-! ## One call -/

section Step

variable {engine : Engine U BasicMappedStorage} {m : RecordMap}

theorem Refines.doHookAlloc (h : engine.Refines m) (ctx : Context R) {mem : Address}
    (hfresh : mem ≠ 0 → m mem = none) (memsize : UInt64) :
    (engine.doHookAlloc ctx mem memsize).Refines (m.alloc mem (ctx.announced memsize)) := by
  by_cases hmem : mem = 0
  · subst hmem
    simpa [RecordMap.alloc] using h
  · unfold RecordMap.alloc
    rw [if_neg hmem]
    exact (TwoLevel.Refines.announce h (hfresh hmem) _).settle
      (settles_doHookAlloc hmem ctx memsize engine)

theorem Refines.doHookFree (h : engine.Refines m) (mem : Address) :
    (engine.doHookFree mem).Refines (m.free mem) := by
  by_cases hmem : mem = 0
  · subst hmem
    simpa [RecordMap.free] using h
  · unfold RecordMap.free
    rw [if_neg hmem]
    have hcells : (engine.doHookFree mem).cell =
        fun k => if k = mem then (engine.cell k).discard else engine.cell k :=
      funext (cell_doHookFree hmem engine)
    rw [Refines, hcells]
    exact TwoLevel.Refines.discard h mem

theorem Refines.doHookUpdateSize (h : engine.Refines m) (mem : Address) (newsize : UInt64) :
    (engine.doHookUpdateSize mem newsize).Refines (m.updateSize mem newsize) := by
  by_cases hmem : mem = 0
  · subst hmem
    simpa [RecordMap.updateSize] using h
  · unfold RecordMap.updateSize
    rw [if_neg hmem]
    have hcells : (engine.doHookUpdateSize mem newsize).cell = fun k =>
        if k = mem then (engine.cell k).rewrite (Record.resize newsize) else engine.cell k :=
      funext (cell_doHookUpdateSize hmem newsize engine)
    rw [Refines, hcells]
    exact TwoLevel.Refines.rewrite h mem _

theorem Refines.doHookRealloc (h : engine.Refines m) (ctx : Context R) {oldMem newMem : Address}
    (hfresh : newMem ≠ 0 → newMem ≠ oldMem → m newMem = none) (newSize : UInt64) :
    (engine.doHookRealloc ctx oldMem newMem newSize).Refines
      (m.realloc oldMem newMem (ctx.announced newSize)) := by
  unfold Engine.doHookRealloc RecordMap.realloc
  by_cases heq : oldMem = newMem
  · rw [if_pos heq, if_pos heq]
    exact h.doHookUpdateSize oldMem newSize
  · rw [if_neg heq, if_neg heq]
    -- releasing the old address leaves the new one as it was
    refine (h.doHookFree oldMem).doHookAlloc ctx ?_ newSize
    intro hmem
    have hnone : m newMem = none := hfresh hmem fun h => heq h.symm
    unfold RecordMap.free
    split
    · exact hnone
    · rwa [Function.update_of_ne fun h => heq h.symm]

theorem Refines.apply (h : engine.Refines m) {op : EngineOp R} (hop : op.Admissible m) :
    (op.apply engine).Refines (op.applyMap m) := by
  cases op with
  | alloc ctx mem memsize => exact h.doHookAlloc ctx hop memsize
  | free mem => exact h.doHookFree mem
  | realloc ctx oldMem newMem newSize => exact h.doHookRealloc ctx hop newSize
  | updateSize mem newsize => exact h.doHookUpdateSize mem newsize

theorem isSome_storage_apply (op : EngineOp R) :
    (op.apply engine).storage.isSome = engine.storage.isSome := by
  cases op <;> simp [EngineOp.apply]

end Step

/-! ## Whole runs -/

theorem Refines.run {engine : Engine U BasicMappedStorage} {m : RecordMap}
    (h : engine.Refines m) {ops : List (EngineOp R)} (hops : AdmissibleFrom m ops) :
    (engine.run ops).Refines (ops.foldl EngineOp.applyMap m) :=
  Run.simulation (R := fun m engine => Refines engine m) (fun h hop => h.apply hop) h hops

theorem isSome_storage_run (engine : Engine U BasicMappedStorage) (ops : List (EngineOp R)) :
    (engine.run ops).storage.isSome = engine.storage.isSome := by
  induction ops generalizing engine with
  | nil => rfl
  | cons op rest ih => exact (ih (op.apply engine)).trans (isSome_storage_apply op)

theorem refines_onInitialize {storage : Option BasicMappedStorage}
    (hempty : ∀ s ∈ storage, s = .empty) (unwinder : U) (timeout : Int64) (maxItems : UInt64)
    (policy : CallStackUnwindProcInfoPolicy) :
    (onInitialize storage unwinder timeout maxItems policy).Refines fun _ => none := by
  intro address
  have hlower : (storage.bind fun s => s.record? address) = none := by
    cases storage with
    | none => rfl
    | some s => simp [hempty s rfl]
  simp [onInitialize, cell, hlower, Cell.Exclusive, Cell.get]

/-- A flush of everything leaves the cache empty when there is a storage. -/
theorem cache_flushLocalCache_all (ctx : Context R) (now : TimePoint) (timeout : Int64)
    {engine : Engine U BasicMappedStorage} (hstorage : engine.storage.isSome) :
    (engine.flushLocalCache ctx now timeout true).cache.items = [] := by
  obtain ⟨storage, hstorage⟩ := Option.isSome_iff_exists.mp hstorage
  simp [flushLocalCache, hstorage, flushBatch, Container.dropFront]

/-- `OnDestroy` leaves the whole map in the storage. -/
theorem Refines.onDestroy {engine : Engine U BasicMappedStorage} {m : RecordMap}
    (h : engine.Refines m) (hstorage : engine.storage.isSome) (ctx : Context R) :
    (engine.onDestroy ctx).1.cache.items = [] ∧
      ∃ database, (engine.onDestroy ctx).2 = some database ∧
        ∀ address, database.record? address = m address := by
  have hflushed : (engine.flushLocalCache ctx ctx.now 0 true).Refines m :=
    h.settle (settles_flushLocalCache ctx ctx.now 0 true engine)
  have hcache := cache_flushLocalCache_all ctx ctx.now 0 hstorage
  refine ⟨hcache, ?_⟩
  obtain ⟨database, hdatabase⟩ := Option.isSome_iff_exists.mp
    ((isSome_storage_flushLocalCache ctx ctx.now 0 true engine).trans hstorage)
  refine ⟨database, hdatabase, ?_⟩
  intro address
  have hget := hflushed.get_eq address
  simpa [cell, Cell.get, hdatabase, Container.find?, hcache] using hget

/-- **The two-level store refines one map.**  Whatever the clock reads and however
the flush interval and the item limit are set, after any run of admissible calls
no address is recorded in both levels, the two levels together are the abstract
map, and `OnDestroy` leaves exactly that map in the storage; so two engines that
differ only in how they flush leave the same database. -/
theorem run_refines_map (unwinder : U) (timeout : Int64) (maxItems : UInt64)
    (policy : CallStackUnwindProcInfoPolicy) (ops : List (EngineOp R))
    (hops : AdmissibleRun ops) (ctx : Context R) :
    let engine := (onInitialize (some BasicMappedStorage.empty) unwinder timeout maxItems
      policy).run ops
    (∀ address, (engine.cell address).upper = none ∨ (engine.cell address).lower = none) ∧
      (∀ address record, runMap ops address = some record ↔
        (engine.cell address).upper = some record ∨ (engine.cell address).lower = some record) ∧
      ∃ database, (engine.onDestroy ctx).2 = some database ∧
        (engine.onDestroy ctx).1.cache.items = [] ∧
        (∀ address, database.record? address = runMap ops address) ∧
        ∀ (timeout' : Int64) (maxItems' : UInt64) (ctx' : Context R),
          ∃ database', (((onInitialize (some BasicMappedStorage.empty) unwinder timeout'
              maxItems' policy).run ops).onDestroy ctx').2 = some database' ∧
            ∀ address, database'.record? address = database.record? address := by
  -- the interval and the limit are arbitrary throughout
  have hrefines : ∀ (t : Int64) (n : UInt64),
      ((onInitialize (some BasicMappedStorage.empty) unwinder t n policy).run ops).Refines
        (runMap ops) :=
    fun t n => Refines.run (refines_onInitialize (by simp) unwinder t n policy) hops
  have hstorage : ∀ (t : Int64) (n : UInt64),
      ((onInitialize (some BasicMappedStorage.empty) unwinder t n policy).run
        ops).storage.isSome :=
    fun t n => by rw [isSome_storage_run]; rfl
  intro engine
  have hengine : engine.Refines (runMap ops) := hrefines timeout maxItems
  obtain ⟨hcache, database, hdatabase, hrecords⟩ :=
    hengine.onDestroy (hstorage timeout maxItems) ctx
  refine ⟨fun address => (hengine address).1, ?_, database, hdatabase, hcache, hrecords, ?_⟩
  · intro address record
    rw [← hengine.get_eq address]
    rcases (hengine address).1 with hnone | hnone <;> simp [Cell.get, hnone]
  · intro timeout' maxItems' ctx'
    obtain ⟨-, database', hdatabase', hrecords'⟩ :=
      (hrefines timeout' maxItems').onDestroy (hstorage timeout' maxItems') ctx'
    exact ⟨database', hdatabase', fun address => (hrecords' address).trans (hrecords address).symm⟩

/-- A run in which a record is flushed, moved and resized. -/
def sampleOps : List (EngineOp Resolver) :=
  [.alloc ⟨1, [⟨7, 7⟩, ⟨8, 8⟩, ⟨9, 9⟩], .silent⟩ 16 100, .alloc ⟨5, [], .silent⟩ 32 8,
    .realloc ⟨4, [], .silent⟩ 32 48 24, .updateSize 16 120, .free 0]

theorem run_refines_map_sampleOps :
    AdmissibleRun sampleOps ∧
      ∃ database, (((onInitialize (some BasicMappedStorage.empty) Impl.Usable.initial 0 0
          .kFlushLocalCacheWhen).run sampleOps).onDestroy ⟨9, [], .silent⟩).2 = some database ∧
        database.record? 16 = some ⟨120, 1, [9]⟩ ∧ database.record? 32 = none ∧
        database.record? 48 = some ⟨24, 4, []⟩ := by
  have hops : AdmissibleRun sampleOps := by
    refine ⟨fun _ => rfl, fun _ => ?_, fun _ _ => ?_, trivial, trivial, trivial⟩ <;> decide
  obtain ⟨-, -, database, hdatabase, -, hrecords, -⟩ := run_refines_map Impl.Usable.initial 0 0
    .kFlushLocalCacheWhen sampleOps hops ⟨9, [], .silent⟩
  refine ⟨hops, database, hdatabase, ?_, ?_, ?_⟩ <;> rw [hrecords] <;> decide

end Engine

end Memhook
