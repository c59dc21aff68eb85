import Memhook.Engine.Cells

/-!
# What a flush moves

`FlushLocalCache` walks the timestamp index from its beginning, up to the lower bound of
`now - timeout` and for `m_cache_flush_max_items` records at most, adds each record to the
storage and erases the walked range afterwards.  So it moves the first `dueCount` records,
the oldest that are due, and calls `Flush` if there is one.  The calls are observed by a
storage that keeps a log; `logged` puts it in the place of the storage.

The order matters when an `Add` throws, because the segment is exhausted.  The records
before it are in the storage by then, and the erase that takes them from the cache is never
reached.  From the second record on, an exception leaves records in both levels, and the
next `DoHookFree` removes only one of the two.
-/

namespace Memhook

open MultiIndex TwoLevel

/-- What both levels keep of a record: everything but the symbols. -/
structure FlushEntry where
  base : TraceInfoBase
  frames : List Frame
  deriving DecidableEq

def TraceInfo.entry (info : TraceInfo) : FlushEntry :=
  ⟨info.toTraceInfoBase, info.callstack.map CallStackInfoItem.frame⟩

def BasicTraceInfo.entry (info : BasicTraceInfo) : FlushEntry :=
  ⟨info.toTraceInfoBase, info.callstack.map fun item => ⟨item.ip, item.sp⟩⟩

/-- The `Add` of a record. -/
def TraceInfo.addCall (info : TraceInfo) : StorageCall :=
  .add info.address info.memsize info.callstack info.timestamp

/-- A record as `Add` stores it. -/
def TraceInfo.stored (info : TraceInfo) : BasicTraceInfo :=
  .build info.address info.memsize info.timestamp info.callstack

@[simp] theorem TraceInfo.entry_stored (info : TraceInfo) : info.stored.entry = info.entry := by
  simp [TraceInfo.stored, BasicTraceInfo.build, BasicTraceInfo.entry, TraceInfo.entry,
    TraceInfoCallStackItem.build, CallStackInfoItem.frame, Function.comp_def]

/-! ## A storage with a log -/

/-- A storage that keeps the calls it gets. -/
structure LoggedStorage where
  storage : BasicMappedStorage
  calls : List StorageCall

instance : MappedStorage LoggedStorage where
  add logged address memsize callstack timestamp :=
    ⟨logged.storage.add address memsize callstack timestamp,
      logged.calls ++ [.add address memsize callstack timestamp]⟩
  remove logged address :=
    (⟨(logged.storage.remove address).1, logged.calls ++ [.remove address]⟩,
      (logged.storage.remove address).2)
  updateSize logged address memsize :=
    (⟨(logged.storage.updateSize address memsize).1, logged.calls ++ [.updateSize address memsize]⟩,
      (logged.storage.updateSize address memsize).2)
  clear logged := ⟨logged.storage.clear, logged.calls ++ [.clear]⟩
  flush logged := ⟨logged.storage, logged.calls ++ [.flush]⟩

namespace Engine

variable {U R S : Type*} [CallStackUnwinder U R] [MappedStorage S]

/-- The engine with a storage that starts a log. -/
def logged (engine : Engine U BasicMappedStorage) : Engine U LoggedStorage :=
  { engine with storage := engine.storage.map fun storage => ⟨storage, []⟩ }

/-- How many records are moved. -/
def dueCount (now : TimePoint) (timeout : Int64) (dumpAll : Bool) (engine : Engine U S) : ℕ :=
  if dumpAll then engine.cache.items.length
  else min engine.cacheFlushMaxItems.toNat (engine.cache.items.countP fun info =>
    decide (info.stamp < (now - nanoseconds timeout).toInt))

/-- The records of a batch as they are passed to `Add`. -/
def passed (resolver : R) (policy : CallStackUnwindProcInfoPolicy) :
    List TraceInfo → U → List TraceInfo
  | [], _ => []
  | info :: rest, unwinder =>
      if policy = .kFlushLocalCacheWhen then
        let resolved :=
          CallStackUnwinder.getCallStackUnwindProcInfo resolver unwinder info.callstack
        info.setCallstack resolved.1 :: passed resolver policy rest resolved.2
      else info :: passed resolver policy rest unwinder

/-- `Add` of a record that is passed. -/
def addRecord (storage : S) (info : TraceInfo) : S :=
  MappedStorage.add storage info.address info.memsize info.callstack info.timestamp

/-! ## The batch -/

omit [MappedStorage S] in
theorem flushBatch_eq_take_dueCount (now : TimePoint) (timeout : Int64) (dumpAll : Bool)
    (engine : Engine U S) :
    engine.flushBatch now timeout dumpAll =
      engine.cache.items.take (engine.dueCount now timeout dumpAll) := by
  unfold flushBatch dueCount
  split
  · exact (List.take_length).symm
  · -- on a sorted index the lower bound is a count
    have hsorted := takeWhile_eq_filter_of_sorted engine.cache.stamps_sorted
      (now - nanoseconds timeout).toInt
    have htake := List.prefix_iff_eq_take.mp (List.takeWhile_prefix (l := engine.cache.items)
      fun info => decide (info.stamp < (now - nanoseconds timeout).toInt))
    rw [htake, hsorted, ← List.countP_eq_length_filter, List.take_take]

omit [MappedStorage S] in
theorem length_flushBatch (now : TimePoint) (timeout : Int64) (dumpAll : Bool)
    (engine : Engine U S) :
    (engine.flushBatch now timeout dumpAll).length = engine.dueCount now timeout dumpAll := by
  rw [flushBatch_eq_take_dueCount, List.length_take, Nat.min_eq_left]
  unfold dueCount
  split
  · exact Nat.le_refl _
  · exact Nat.le_trans (Nat.min_le_right _ _) List.countP_le_length

/-! ## The loop -/

theorem entry_passed (resolver : R) (policy : CallStackUnwindProcInfoPolicy)
    (batch : List TraceInfo) (unwinder : U) :
    (passed resolver policy batch unwinder).map TraceInfo.entry = batch.map TraceInfo.entry := by
  induction batch generalizing unwinder with
  | nil => rfl
  | cons info rest ih =>
      unfold passed
      split
      · -- resolving the symbols keeps the frames
        have hentry : (info.setCallstack (CallStackUnwinder.getCallStackUnwindProcInfo resolver
            unwinder info.callstack).1).entry = info.entry := by
          simp [TraceInfo.entry, TraceInfo.setCallstack,
            CallStackUnwinder.frames_getCallStackUnwindProcInfo]
        rw [List.map_cons, List.map_cons, ih, hentry]
      · rw [List.map_cons, List.map_cons, ih]

theorem key_passed (resolver : R) (policy : CallStackUnwindProcInfoPolicy)
    (batch : List TraceInfo) (unwinder : U) :
    (passed resolver policy batch unwinder).map TraceInfo.key = batch.map TraceInfo.key := by
  have haddress := congrArg (List.map fun entry : FlushEntry => entry.base.address)
    (entry_passed resolver policy batch unwinder)
  rw [List.map_map, List.map_map] at haddress
  exact haddress

theorem dump_snd_eq_foldl (resolver : R) (policy : CallStackUnwindProcInfoPolicy)
    (batch : List TraceInfo) (unwinder : U) (storage : S) :
    (dump resolver policy batch unwinder storage).2 =
      (passed resolver policy batch unwinder).foldl addRecord storage := by
  induction batch generalizing unwinder storage with
  | nil => rfl
  | cons info rest ih =>
      unfold dump passed
      split <;> exact ih _ _

/-- The storage after a flush. -/
theorem storage_flushLocalCache (ctx : Context R) (now : TimePoint) (timeout : Int64)
    (dumpAll : Bool) {engine : Engine U S} {storage : S}
    (hstorage : engine.storage = some storage) :
    (engine.flushLocalCache ctx now timeout dumpAll).storage =
      let dumped := (passed ctx.resolver engine.getprocinfoPolicy
        (engine.cache.items.take (engine.dueCount now timeout dumpAll))
        engine.callstackUnwinder).foldl addRecord storage
      some (if 0 < engine.dueCount now timeout dumpAll then MappedStorage.flush dumped
        else dumped) := by
  simp only [flushLocalCache, hstorage, length_flushBatch, dump_snd_eq_foldl,
    Nat.pos_iff_ne_zero]
  rw [flushBatch_eq_take_dueCount]

/-- `Add` of a record whose address is free. -/
theorem items_addRecord {storage : BasicMappedStorage} {info : TraceInfo}
    (hfree : storage.indexedContainer.find? info.key = none) :
    (addRecord storage info).indexedContainer.items.Perm
      (info.stored :: storage.indexedContainer.items) := by
  have hitems : (addRecord storage info).indexedContainer.items =
      insertUpper BasicTraceInfo.stamp info.stored storage.indexedContainer.items := by
    show (storage.add _ _ _ _).indexedContainer.items = _
    simp only [BasicMappedStorage.add,
      BasicMappedStorage.indexedContainer_foldl_symbolTableUpdater]
    exact Container.emplace_items_of_none hfree
  rw [hitems]
  exact insertUpper_perm _ _ _

theorem find?_addRecord_of_ne {storage : BasicMappedStorage} {info : TraceInfo} {address : Address}
    (hne : info.key ≠ address) :
    (addRecord storage info).indexedContainer.find? address =
      storage.indexedContainer.find? address := by
  show (storage.add _ _ _ _).indexedContainer.find? address = _
  simp only [BasicMappedStorage.add, Container.find?_emplace,
    BasicMappedStorage.indexedContainer_foldl_symbolTableUpdater]
  have hkey : (BasicTraceInfo.build info.address info.memsize info.timestamp info.callstack).key ≠
      address := hne
  rw [if_neg hkey, Option.or_none]

/-- Records with free addresses are all gained, each once, and nothing else changes. -/
theorem items_foldl_addRecord {records : List TraceInfo} {storage : BasicMappedStorage}
    (hnodup : (records.map TraceInfo.key).Nodup)
    (hfree : ∀ info ∈ records, storage.indexedContainer.find? info.key = none) :
    (records.foldl addRecord storage).indexedContainer.items.Perm
      (storage.indexedContainer.items ++ records.map TraceInfo.stored) := by
  induction records generalizing storage with
  | nil => simp
  | cons info rest ih =>
      obtain ⟨hother, hrest⟩ := List.nodup_cons.mp hnodup
      have hnext : ∀ later ∈ rest,
          (addRecord storage info).indexedContainer.find? later.key = none := by
        intro later hlater
        rw [find?_addRecord_of_ne fun heq => hother (List.mem_map.mpr ⟨later, hlater, heq.symm⟩)]
        exact hfree later (List.mem_cons_of_mem _ hlater)
      have hinfo := items_addRecord (hfree info List.mem_cons_self)
      exact (ih hrest hnext).trans ((hinfo.append_right _).trans List.perm_middle.symm)

theorem calls_foldl_addRecord (records : List TraceInfo) (storage : LoggedStorage) :
    records.foldl addRecord storage =
      ⟨records.foldl addRecord storage.storage,
        storage.calls ++ records.map TraceInfo.addCall⟩ := by
  induction records generalizing storage with
  | nil => simp
  | cons info rest ih =>
      rw [List.foldl_cons, ih]
      simp [addRecord, MappedStorage.add, TraceInfo.addCall]

/-- What is cached is not stored. -/
theorem find?_stored_eq_none {engine : Engine U BasicMappedStorage} {storage : BasicMappedStorage}
    (hdisjoint : ∀ address, (engine.cell address).Exclusive)
    (hstorage : engine.storage = some storage) {info : TraceInfo}
    (hinfo : info ∈ engine.cache.items) : storage.indexedContainer.find? info.key = none := by
  have hfind := Container.find?_eq_some.mpr ⟨hinfo, rfl⟩
  rcases hdisjoint info.key with hupper | hlower
  · simp [cell, hfind] at hupper
  · simpa [cell, hstorage, BasicMappedStorage.record?] using hlower

theorem cache_flushLocalCache (ctx : Context R) (now : TimePoint) (timeout : Int64)
    (dumpAll : Bool) {engine : Engine U S} {storage : S}
    (hstorage : engine.storage = some storage) :
    (engine.flushLocalCache ctx now timeout dumpAll).cache.items =
      engine.cache.items.drop (engine.dueCount now timeout dumpAll) := by
  rw [← length_flushBatch]
  simp only [flushLocalCache, hstorage]
  rfl

omit [MappedStorage S] in
/-- What comes first in the timestamp index is not younger. -/
theorem stamp_le_of_mem_take_of_mem_drop {engine : Engine U S} {k : ℕ} {moved kept : TraceInfo}
    (hmoved : moved ∈ engine.cache.items.take k) (hkept : kept ∈ engine.cache.items.drop k) :
    moved.stamp ≤ kept.stamp := by
  have hsorted := engine.cache.stamps_sorted
  rw [← List.take_append_drop k engine.cache.items] at hsorted
  exact (List.pairwise_append.mp hsorted).2.2 moved hmoved kept hkept

/-- The storage gains the first records of the cache, as they are passed to `Add`. -/
theorem items_foldl_addRecord_passed {engine : Engine U BasicMappedStorage}
    {storage : BasicMappedStorage} (hdisjoint : ∀ address, (engine.cell address).Exclusive)
    (hstorage : engine.storage = some storage) (resolver : R)
    (policy : CallStackUnwindProcInfoPolicy) (unwinder : U) (k : ℕ) :
    let records := passed resolver policy (engine.cache.items.take k) unwinder
    (records.foldl addRecord storage).indexedContainer.items.Perm
      (storage.indexedContainer.items ++ records.map TraceInfo.stored) := by
  intro records
  have hkeys : records.map TraceInfo.key = (engine.cache.items.take k).map TraceInfo.key :=
    key_passed resolver policy _ unwinder
  refine items_foldl_addRecord ?_ ?_
  · rw [hkeys]
    exact engine.cache.keys_nodup.sublist ((List.take_sublist _ _).map _)
  · intro info hinfo
    have hkey : info.key ∈ (engine.cache.items.take k).map TraceInfo.key :=
      hkeys ▸ List.mem_map_of_mem hinfo
    obtain ⟨cached, hcached, heq⟩ := List.mem_map.mp hkey
    rw [← heq]
    exact find?_stored_eq_none hdisjoint hstorage (List.mem_of_mem_take hcached)

/-- The calls of a flush, in their order. -/
theorem storage_logged_flushLocalCache (ctx : Context R) (now : TimePoint) (timeout : Int64)
    (dumpAll : Bool) {engine : Engine U BasicMappedStorage} {storage : BasicMappedStorage}
    (hstorage : engine.storage = some storage) :
    let records := passed ctx.resolver engine.getprocinfoPolicy
      (engine.cache.items.take (engine.dueCount now timeout dumpAll)) engine.callstackUnwinder
    (engine.logged.flushLocalCache ctx now timeout dumpAll).storage =
      some ⟨records.foldl addRecord storage, records.map TraceInfo.addCall ++
        if 0 < engine.dueCount now timeout dumpAll then [.flush] else []⟩ := by
  intro records
  have hlogged : engine.logged.storage = some ⟨storage, []⟩ := by
    rw [logged, hstorage]
    rfl
  rw [storage_flushLocalCache ctx now timeout dumpAll hlogged]
  simp only [calls_foldl_addRecord, List.nil_append]
  show some (if 0 < engine.dueCount now timeout dumpAll then _ else _) = _
  split
  · rfl
  · rw [List.append_nil]
    rfl

/-- **A flush moves exactly the oldest due records.**  Without a storage nothing changes.
Otherwise the storage gains the first `dueCount` records of the timestamp index with their
sizes, timestamps and frames, and the cache loses these; none of those that stay is older;
and `Flush` is called, after the last `Add`, if there was one. -/
theorem flushLocalCache_moves (ctx : Context R) (now : TimePoint) (timeout : Int64)
    (dumpAll : Bool) (engine : Engine U BasicMappedStorage)
    (hdisjoint : ∀ address, (engine.cell address).Exclusive) :
    let k := engine.dueCount now timeout dumpAll
    let after := engine.flushLocalCache ctx now timeout dumpAll
    (engine.storage = none → after = engine) ∧
      ∀ storage, engine.storage = some storage →
        ∃ (stored : BasicMappedStorage) (records : List TraceInfo),
        after.storage = some stored ∧
        stored.indexedContainer.items.Perm
          (storage.indexedContainer.items ++ records.map TraceInfo.stored) ∧
        (records.map TraceInfo.stored).map BasicTraceInfo.entry =
          (engine.cache.items.take k).map TraceInfo.entry ∧
        after.cache.items = engine.cache.items.drop k ∧
        (∀ moved ∈ engine.cache.items.take k, ∀ kept ∈ after.cache.items,
          moved.stamp ≤ kept.stamp) ∧
        (engine.logged.flushLocalCache ctx now timeout dumpAll).storage =
          some ⟨stored, records.map TraceInfo.addCall ++ if 0 < k then [.flush] else []⟩ := by
  intro k after
  constructor
  · intro hnone
    simp only [after, flushLocalCache, hnone]
  · intro storage hstorage
    have hcache : after.cache.items = engine.cache.items.drop k :=
      cache_flushLocalCache ctx now timeout dumpAll hstorage
    refine ⟨_, passed ctx.resolver engine.getprocinfoPolicy (engine.cache.items.take k)
      engine.callstackUnwinder, ?_, items_foldl_addRecord_passed hdisjoint hstorage _ _ _ k, ?_,
      hcache, ?_, storage_logged_flushLocalCache ctx now timeout dumpAll hstorage⟩
    · rw [storage_flushLocalCache ctx now timeout dumpAll hstorage]
      simp only [k]
      split <;> rfl
    · rw [List.map_map, ← entry_passed ctx.resolver engine.getprocinfoPolicy _
        engine.callstackUnwinder]
      exact List.map_congr_left fun info _ => info.entry_stored
    · rw [hcache]
      intro moved hmoved kept hkept
      exact stamp_le_of_mem_take_of_mem_drop hmoved hkept

/-- Two blocks, announced one after the other, and an empty storage. -/
def sampleEngine : Engine Impl.Usable BasicMappedStorage :=
  { storage := some .empty
    cache := ((Container.empty.emplace ⟨⟨16, 100, 1⟩, [⟨[], [], 0, 7, 8, 0⟩]⟩).1.emplace
      ⟨⟨32, 8, 2⟩, []⟩).1
    callstackUnwinder := Impl.Usable.initial
    cacheFlushTimeout := 0
    cacheFlushMaxItems := 1
    getprocinfoPolicy := .kUnwindCallStackWhen }

theorem flushLocalCache_moves_sampleEngine :
    sampleEngine.dueCount 5 0 false = 1 ∧
      (sampleEngine.flushLocalCache ⟨5, [], .silent⟩ 5 0 false).cache.items =
        [⟨⟨32, 8, 2⟩, []⟩] := by
  have hcount : sampleEngine.dueCount 5 0 false = 1 := by decide
  obtain ⟨-, hmoves⟩ := flushLocalCache_moves ⟨5, [], .silent⟩ 5 0 false sampleEngine
    (fun _ => .inr rfl)
  obtain ⟨stored, records, -, -, -, hcache, -⟩ := hmoves .empty rfl
  refine ⟨hcount, hcache.trans ?_⟩
  rw [hcount]
  decide

/-! ## An `Add` that throws -/

section Throwing

variable (resolver : R) (symtab shltab : SymbolTable)

/-- The symbols are filled in where the record is, in the cache. -/
def resolveInPlace (info : TraceInfo) (engine : Engine U BasicMappedStorage) :
    CallStackInfo × Engine U BasicMappedStorage :=
  if engine.getprocinfoPolicy = .kFlushLocalCacheWhen then
    let resolved := CallStackUnwinder.getCallStackUnwindProcInfo resolver engine.callstackUnwinder
      info.callstack
    (resolved.1,
      { engine with
        callstackUnwinder := resolved.2
        cache := engine.cache.modify info.key (TraceInfo.setCallstack resolved.1)
          (TraceInfo.key_setCallstack resolved.1) (TraceInfo.stamp_setCallstack resolved.1) })
  else (info.callstack, engine)

/-- The loop of `FlushLocalCache` up to the `Add` that throws.  That one has no record to
show for it, but it may have put symbols into the tables of the storage, which are then
`symtab` and `shltab`. -/
def dumpThrowing : ℕ → List TraceInfo → BasicMappedStorage → Engine U BasicMappedStorage →
    Engine U BasicMappedStorage
  | _, [], storage, engine => { engine with storage := some storage }
  | 0, info :: _, storage, engine =>
      { (engine.resolveInPlace resolver info).2 with
        storage := some { storage with symtab := symtab, shltab := shltab } }
  | position + 1, info :: rest, storage, engine =>
      let resolved := engine.resolveInPlace resolver info
      dumpThrowing position rest
        (storage.add info.address info.memsize resolved.1 info.timestamp) resolved.2

/-- `FlushLocalCache` when the `Add` at a position of the batch throws, as the exception
leaves it.  If there are fewer records to add, nothing is thrown. -/
def flushLocalCacheThrowing (position : ℕ) (ctx : Context R) (now : TimePoint) (timeout : Int64)
    (dumpAll : Bool) (engine : Engine U BasicMappedStorage) : Engine U BasicMappedStorage :=
  match engine.storage with
  | none => engine
  | some storage =>
      if position < (engine.flushBatch now timeout dumpAll).length then
        dumpThrowing ctx.resolver symtab shltab position (engine.flushBatch now timeout dumpAll)
          storage engine
      else engine.flushLocalCache ctx now timeout dumpAll

/-- No address has a record in both levels, those that have one are the same as before, and
a later `DoHookFree` leaves none. -/
structure KeptApart (before after : Engine U BasicMappedStorage) : Prop where
  exclusive : ∀ address, (after.cell address).Exclusive
  union : ∀ address, (after.record? address).isSome = (before.record? address).isSome
  free : ∀ address ≠ 0, ((after.doHookFree address).record? address) = none

theorem isSome_find?_resolveInPlace (info : TraceInfo) (engine : Engine U BasicMappedStorage)
    (address : Address) :
    ((engine.resolveInPlace resolver info).2.cache.find? address).isSome =
      (engine.cache.find? address).isSome := by
  unfold resolveInPlace
  split
  · simp only [Container.find?_modify]
    split <;> simp
  · rfl

/-- The cache keeps its addresses. -/
theorem isSome_find?_dumpThrowing (position : ℕ) (batch : List TraceInfo)
    (storage : BasicMappedStorage) (engine : Engine U BasicMappedStorage) (address : Address) :
    ((dumpThrowing resolver symtab shltab position batch storage engine).cache.find?
      address).isSome = (engine.cache.find? address).isSome := by
  induction batch generalizing position storage engine with
  | nil => cases position <;> rfl
  | cons info rest ih =>
      cases position with
      | zero => exact isSome_find?_resolveInPlace resolver info engine address
      | succ position =>
          rw [dumpThrowing, ih]
          exact isSome_find?_resolveInPlace resolver info engine address

/-- The storage has the records before the failing one. -/
theorem storage_dumpThrowing {position : ℕ} {batch : List TraceInfo}
    (hposition : position < batch.length) (storage : BasicMappedStorage)
    (engine : Engine U BasicMappedStorage) :
    (dumpThrowing resolver symtab shltab position batch storage engine).storage =
      some { (dump resolver engine.getprocinfoPolicy (batch.take position)
        engine.callstackUnwinder storage).2 with symtab := symtab, shltab := shltab } := by
  induction batch generalizing position storage engine with
  | nil => exact absurd hposition (Nat.not_lt_zero _)
  | cons info rest ih =>
      cases position with
      | zero => rfl
      | succ position =>
          rw [dumpThrowing, ih (Nat.lt_of_succ_lt_succ hposition), List.take_succ_cons, dump]
          unfold resolveInPlace
          split <;> rfl

variable (ctx : Context R) {position : ℕ} {now : TimePoint} {timeout : Int64} {dumpAll : Bool}
  {engine : Engine U BasicMappedStorage} {storage : BasicMappedStorage}

/-- What the two levels say after the exception. -/
theorem cell_flushLocalCacheThrowing (hstorage : engine.storage = some storage)
    (hposition : position < (engine.flushBatch now timeout dumpAll).length) (address : Address) :
    let after := engine.flushLocalCacheThrowing symtab shltab position ctx now timeout dumpAll
    (after.cell address).upper.isSome = (engine.cell address).upper.isSome ∧
      (after.cell address).lower = (engine.cell address).lower.or
        ((((engine.flushBatch now timeout dumpAll).take position).find? fun info =>
          decide (info.key = address)).map TraceInfo.toRecord) := by
  intro after
  have hafter : after = dumpThrowing ctx.resolver symtab shltab position
      (engine.flushBatch now timeout dumpAll) storage engine := by
    simp only [after, flushLocalCacheThrowing, hstorage, if_pos hposition]
  rw [hafter]
  constructor
  · simp only [cell, Option.isSome_map, isSome_find?_dumpThrowing]
  · simp only [cell, storage_dumpThrowing ctx.resolver symtab shltab hposition, hstorage,
      Option.bind_some]
    exact record?_dump _ _ _ _ _ _

/-- The first record of a batch that is interrupted later is in both levels. -/
theorem exists_not_exclusive (hstorage : engine.storage = some storage)
    (hposition : position < (engine.flushBatch now timeout dumpAll).length)
    (hlater : position ≠ 0) :
    ∃ address, ¬ ((engine.flushLocalCacheThrowing symtab shltab position ctx now timeout
      dumpAll).cell address).Exclusive := by
  obtain ⟨earlier, rfl⟩ := Nat.exists_eq_succ_of_ne_zero hlater
  have htake := flushBatch_eq_take now timeout dumpAll engine
  have hcell := cell_flushLocalCacheThrowing symtab shltab ctx hstorage hposition
  cases hbatch : engine.flushBatch now timeout dumpAll with
  | nil =>
      rw [hbatch] at hposition
      exact absurd hposition (Nat.not_lt_zero _)
  | cons info rest =>
      rw [hbatch] at htake hcell
      have hmem : info ∈ engine.cache.items :=
        List.mem_of_mem_take (htake ▸ List.mem_cons_self)
      have hcached : (engine.cell info.key).upper.isSome := by
        rw [cell, Container.find?_eq_some.mpr ⟨hmem, rfl⟩]
        rfl
      obtain ⟨hupper, hlower⟩ := hcell info.key
      rw [List.take_succ_cons, List.find?_cons_of_pos (by simp)] at hlower
      refine ⟨info.key, ?_⟩
      rintro (hnone | hnone)
      · rw [hnone, hcached] at hupper
        simp at hupper
      · rw [hnone] at hlower
        simp at hlower

/-- **A flush that fails midway.**  The levels are kept apart exactly if it is the first
`Add` that throws. -/
theorem keptApart_throwing_iff (hstorage : engine.storage = some storage)
    (hdisjoint : ∀ address, (engine.cell address).Exclusive)
    (hposition : position < (engine.flushBatch now timeout dumpAll).length) :
    engine.KeptApart
      (engine.flushLocalCacheThrowing symtab shltab position ctx now timeout dumpAll) ↔
      position = 0 := by
  constructor
  · intro happart
    by_contra hlater
    obtain ⟨address, hnot⟩ := exists_not_exclusive symtab shltab ctx hstorage hposition hlater
    exact hnot (happart.exclusive address)
  · rintro rfl
    have hcell := cell_flushLocalCacheThrowing symtab shltab ctx hstorage hposition
    generalize engine.flushLocalCacheThrowing symtab shltab 0 ctx now timeout dumpAll = after
      at hcell
    have hlower : ∀ address, (after.cell address).lower = (engine.cell address).lower := by
      intro address
      simpa using (hcell address).2
    have hexclusive : ∀ address, (after.cell address).Exclusive := by
      intro address
      refine (hdisjoint address).imp ?_ ?_
      · intro hnone
        have hupper := (hcell address).1
        rw [hnone] at hupper
        simpa using hupper
      · intro hnone
        rw [hlower, hnone]
    refine ⟨hexclusive, ?_, ?_⟩
    · intro address
      simp only [record?, Cell.get, Option.isSome_or, (hcell address).1, hlower]
    · intro address hne
      rw [record?, cell_doHookFree hne, if_pos rfl, Cell.discard_of_exclusive (hexclusive address)]
      rfl

theorem keptApart_throwing_iff_sampleEngine :
    sampleEngine.KeptApart (sampleEngine.flushLocalCacheThrowing (fun _ => none) (fun _ => none) 0
      ⟨5, [], .silent⟩ 5 0 true) := by
  refine (keptApart_throwing_iff _ _ _ rfl ?_ (by decide)).mpr rfl
  intro address
  exact .inr rfl

/-- When the second of two records does not fit, freeing the first block leaves its record
in the storage. -/
theorem not_keptApart_sampleEngine :
    ¬ sampleEngine.KeptApart (sampleEngine.flushLocalCacheThrowing (fun _ => none)
      (fun _ => none) 1 ⟨5, [], .silent⟩ 5 0 true) := by
  intro happart
  exact absurd (happart.free 16 (by decide)) (by decide)

end Throwing

end Engine

end Memhook
