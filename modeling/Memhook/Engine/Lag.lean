import Mathlib.Order.Interval.Finset.Nat
import Memhook.Engine.Calls
import Memhook.Engine.Flushing

/-!
# The storage while the engine runs

Somebody who looks at the storage of a running engine sees it between two calls on it, and so
perhaps in the middle of a hook.  Two facts say what there is to see.

* The calls that one hook makes on the storage are about different addresses (`pairwise_made`).
  So in the middle of a hook every address has the record that it had before the hook or the one
  that it has after it (`Between`).
* The engine keeps a record back no longer than the flush interval: an allocation that reads the
  clock moves everything that is older than `now - timeout`.  With the limit of items that is the
  default, `m_cache_flush_max_items` never stops it, since the cache has fewer records than there
  are addresses.  So what was due at the last allocation is in the storage (`Current`).
-/

namespace Memhook

open MultiIndex TwoLevel

variable {U R : Type*} [CallStackUnwinder U R] {S : Type} [MappedStorage S]

/-! ## The calls of one hook -/

/-- The addresses whose records a call can change. -/
def StorageCall.Touches : StorageCall → Address → Prop
  | add address _ _ _, other | remove address, other | updateSize address _, other =>
      other = address
  | clear, _ => True
  | flush, _ => False

theorem StorageCall.record?_apply_of_not_touches (storage : BasicMappedStorage)
    (call : StorageCall) (address : Address) (h : ¬ call.Touches address) :
    (call.apply storage).record? address = storage.record? address := by
  cases call with
  | add other memsize callstack timestamp =>
      have hne : other ≠ address := fun heq => h heq.symm
      refine (storage.record?_add other memsize callstack timestamp address).trans ?_
      rw [if_neg hne, Option.or_none]
  | remove other => exact (storage.record?_remove other address).trans (if_neg h)
  | updateSize other memsize =>
      exact (storage.record?_updateSize other memsize address).trans (if_neg h)
  | clear => exact absurd trivial h
  | flush => rfl

/-- No address is touched by both calls. -/
def StorageCall.Apart (call other : StorageCall) : Prop :=
  ∀ address, call.Touches address → ¬ other.Touches address

theorem CallLog.calls_replay (log : CallLog) (calls : List StorageCall) :
    (CallLog.replay log ⟨calls⟩).calls = log.calls ++ calls := by
  unfold replay
  induction calls generalizing log with
  | nil => exact (List.append_nil _).symm
  | cons call rest ih =>
      have hpush : call.apply log = log.push call := by cases call <;> rfl
      rw [List.foldl_cons, ih, hpush, push, List.append_assoc, List.singleton_append]

namespace Engine

/-- The engine with an empty log in the place of its storage. -/
def withLog (engine : Engine U S) : Engine U CallLog := engine.mapStorage fun _ => ⟨[]⟩

/-- What was taken down. -/
def logged? (engine : Engine U CallLog) : List StorageCall :=
  (engine.storage.map CallLog.calls).getD []

/-- The calls that an operation makes on the storage. -/
def made (op : EngineOp R) (engine : Engine U S) : List StorageCall :=
  logged? (op.apply engine.withLog)

/-- The calls of a whole run. -/
def storageCalls (engine : Engine U S) (ops : List (EngineOp R)) : List StorageCall :=
  logged? (engine.withLog.run ops)

/-! ### What is called -/

section Calls

variable {engine : Engine U CallLog} {log : CallLog}

theorem foldl_addRecord_log (records : List TraceInfo) (log : CallLog) :
    records.foldl addRecord log = ⟨log.calls ++ records.map TraceInfo.addCall⟩ := by
  induction records generalizing log with
  | nil => simp
  | cons info rest ih =>
      rw [List.foldl_cons, ih]
      simp [addRecord, MappedStorage.add, CallLog.push, TraceInfo.addCall]

theorem pairwise_addCall {records : List TraceInfo} (h : (records.map TraceInfo.key).Nodup) :
    (records.map TraceInfo.addCall).Pairwise StorageCall.Apart := by
  rw [List.pairwise_map]
  refine (List.pairwise_map.mp h).imp ?_
  rintro info other hne address rfl heq
  exact hne heq

/-- A flush adds cached records, each once. -/
theorem calls_flushLocalCache (hstorage : engine.storage = some log) (ctx : Context R)
    (now : TimePoint) (timeout : Int64) (dumpAll : Bool) :
    ∃ calls, (engine.flushLocalCache ctx now timeout dumpAll).storage =
        some ⟨log.calls ++ calls⟩ ∧ calls.Pairwise StorageCall.Apart ∧
      ∀ call ∈ calls, ∀ address, call.Touches address → (engine.cache.find? address).isSome := by
  have hflushed := storage_flushLocalCache ctx now timeout dumpAll hstorage
  simp only at hflushed
  generalize engine.dueCount now timeout dumpAll = k at hflushed
  have hkeys := key_passed ctx.resolver engine.getprocinfoPolicy (engine.cache.items.take k)
    engine.callstackUnwinder
  generalize passed ctx.resolver engine.getprocinfoPolicy (engine.cache.items.take k)
    engine.callstackUnwinder = records at hflushed hkeys
  have hnodup : (records.map TraceInfo.key).Nodup := by
    rw [hkeys]
    exact engine.cache.keys_nodup.sublist ((List.take_sublist _ _).map _)
  refine ⟨records.map TraceInfo.addCall ++ if 0 < k then [.flush] else [], ?_, ?_, ?_⟩
  · rw [hflushed, foldl_addRecord_log]
    split
    · simp [MappedStorage.flush, CallLog.push]
    · simp
  · refine List.pairwise_append.mpr ⟨pairwise_addCall hnodup, ?_, ?_⟩
    · split <;> simp
    · intro call _ other hother address _
      split at hother
      · rw [List.mem_singleton.mp hother]
        exact id
      · exact absurd hother List.not_mem_nil
  · intro call hcall address htouches
    rcases List.mem_append.mp hcall with hcall | hcall
    · obtain ⟨info, hinfo, rfl⟩ := List.mem_map.mp hcall
      obtain rfl : address = info.key := htouches
      have hmem : info.key ∈ (engine.cache.items.take k).map TraceInfo.key :=
        hkeys ▸ List.mem_map_of_mem hinfo
      obtain ⟨cached, hcached, hkey⟩ := List.mem_map.mp hmem
      rw [Container.find?_isSome]
      exact List.mem_map.mpr ⟨cached, List.mem_of_mem_take hcached, hkey⟩
    · split at hcall
      · rw [List.mem_singleton.mp hcall] at htouches
        exact htouches.elim
      · exact absurd hcall List.not_mem_nil

/-- The engine of an announcement before it flushes: the cache has what it had, and perhaps the
new record. -/
theorem doHookAlloc_eq {S : Type*} [MappedStorage S] (engine : Engine U S) (ctx : Context R)
    {mem : Address} (hmem : mem ≠ 0) (memsize : UInt64) :
    ∃ (unwinder : U) (cache : CachedRecords),
      engine.doHookAlloc ctx mem memsize =
        flushLocalCache ctx ctx.now engine.cacheFlushTimeout false
          { engine with callstackUnwinder := unwinder, cache := cache } ∧
      ∀ info ∈ cache.items, info.key = mem ∨ info.key ∈ engine.cache.items.map TraceInfo.key := by
  have hemplaced : ∀ info ∈ (engine.cache.emplace ⟨⟨mem, memsize, ctx.now⟩, []⟩).1.items,
      info.key = mem ∨ info.key ∈ engine.cache.items.map TraceInfo.key := by
    intro info hinfo
    rcases Container.mem_of_mem_emplace hinfo with hold | rfl
    · exact .inr (List.mem_map_of_mem hold)
    · exact .inl rfl
  refine ⟨_, _, if_neg hmem, ?_⟩
  intro info hinfo
  split at hinfo
  · obtain ⟨other, hother, rfl⟩ := List.mem_map.mp hinfo
    split
    · rw [TraceInfo.key_setCallstack]
      exact hemplaced other hother
    · exact hemplaced other hother
  · exact hemplaced info hinfo

theorem calls_doHookAlloc (hstorage : engine.storage = some log) (ctx : Context R)
    (mem : Address) (memsize : UInt64) :
    ∃ calls, (engine.doHookAlloc ctx mem memsize).storage = some ⟨log.calls ++ calls⟩ ∧
      calls.Pairwise StorageCall.Apart ∧
      ∀ call ∈ calls, ∀ address, call.Touches address →
        address = mem ∨ (engine.cache.find? address).isSome := by
  by_cases hmem : mem = 0
  · refine ⟨[], ?_, List.Pairwise.nil, by simp⟩
    rw [doHookAlloc, if_pos hmem, hstorage, List.append_nil]
  · obtain ⟨unwinder, cache, heq, hcache⟩ := doHookAlloc_eq engine ctx hmem memsize
    have hannounced : ({ engine with callstackUnwinder := unwinder, cache := cache } :
        Engine U CallLog).storage = some log := hstorage
    obtain ⟨calls, hcalls, hapart, htouched⟩ :=
      calls_flushLocalCache hannounced ctx ctx.now engine.cacheFlushTimeout false
    refine ⟨calls, heq ▸ hcalls, hapart, ?_⟩
    intro call hcall address htouches
    obtain ⟨info, hinfo⟩ := Option.isSome_iff_exists.mp (htouched call hcall address htouches)
    obtain ⟨hmem, rfl⟩ := Container.find?_eq_some.mp hinfo
    exact (hcache info hmem).imp id Container.find?_isSome.mpr

/-- A release calls `Remove` or nothing, and the address is not cached afterwards. -/
theorem calls_doHookFree (hstorage : engine.storage = some log) (mem : Address) :
    ∃ calls, (engine.doHookFree mem).storage = some ⟨log.calls ++ calls⟩ ∧
      (calls = [] ∨ calls = [.remove mem] ∧ (engine.doHookFree mem).cache.find? mem = none) := by
  unfold doHookFree
  split
  · exact ⟨[], by rw [hstorage, List.append_nil], .inl rfl⟩
  · split
    · exact ⟨[], by rw [List.append_nil]; exact hstorage, .inl rfl⟩
    · next hfind =>
        refine ⟨[.remove mem], ?_, .inr ⟨rfl, hfind⟩⟩
        simp only [hstorage, Option.map_some]
        rfl

theorem calls_doHookUpdateSize (hstorage : engine.storage = some log) (mem : Address)
    (newsize : UInt64) :
    ∃ calls, (engine.doHookUpdateSize mem newsize).storage = some ⟨log.calls ++ calls⟩ ∧
      calls.Pairwise StorageCall.Apart := by
  unfold doHookUpdateSize
  split
  · exact ⟨[], by rw [hstorage, List.append_nil], List.Pairwise.nil⟩
  · split
    · exact ⟨[], by rw [List.append_nil]; exact hstorage, List.Pairwise.nil⟩
    · refine ⟨[.updateSize mem newsize], ?_, List.pairwise_singleton _ _⟩
      simp only [hstorage, Option.map_some]
      rfl

/-- No two calls of one operation touch the same address. -/
theorem calls_apply (hstorage : engine.storage = some log) (op : EngineOp R) :
    ∃ calls, (op.apply engine).storage = some ⟨log.calls ++ calls⟩ ∧
      calls.Pairwise StorageCall.Apart := by
  cases op with
  | alloc ctx mem memsize =>
      obtain ⟨calls, hcalls, hapart, -⟩ := calls_doHookAlloc hstorage ctx mem memsize
      exact ⟨calls, hcalls, hapart⟩
  | free mem =>
      obtain ⟨calls, hcalls, rfl | ⟨rfl, -⟩⟩ := calls_doHookFree hstorage mem
      · exact ⟨[], hcalls, List.Pairwise.nil⟩
      · exact ⟨_, hcalls, List.pairwise_singleton _ _⟩
  | updateSize mem newsize => exact calls_doHookUpdateSize hstorage mem newsize
  | realloc ctx oldMem newMem newSize =>
      show ∃ calls, (engine.doHookRealloc ctx oldMem newMem newSize).storage = _ ∧ _
      unfold doHookRealloc
      split
      · exact calls_doHookUpdateSize hstorage oldMem newSize
      · next hne =>
          obtain ⟨freed, hfreed, hremoved⟩ := calls_doHookFree hstorage oldMem
          obtain ⟨calls, hcalls, hapart, htouched⟩ :=
            calls_doHookAlloc hfreed ctx newMem newSize
          refine ⟨freed ++ calls, by rw [hcalls, List.append_assoc], ?_⟩
          rcases hremoved with rfl | ⟨rfl, hfind⟩
          · exact hapart
          · -- what was removed is not cached, so the flush does not bring it back
            refine List.pairwise_append.mpr ⟨List.pairwise_singleton _ _, hapart, ?_⟩
            rintro call hcall other hother address htouches hagain
            obtain rfl := List.mem_singleton.mp hcall
            obtain rfl : address = oldMem := htouches
            rcases htouched other hother address hagain with heq | hsome
            · exact hne heq
            · rw [hfind] at hsome
              exact absurd hsome (by simp)

omit [MappedStorage S] in
theorem storage_withLog {engine : Engine U S} {storage : S}
    (hstorage : engine.storage = some storage) : engine.withLog.storage = some ⟨[]⟩ := by
  simp [withLog, mapStorage, hstorage]

end Calls

section Replay

variable {engine : Engine U S} {storage : S} (hstorage : engine.storage = some storage)

include hstorage

theorem mapStorage_withLog :
    engine = engine.withLog.mapStorage (CallLog.replay storage) := by
  simp only [withLog, mapStorage, hstorage, Option.map_some]
  rw [show CallLog.replay storage ⟨[]⟩ = storage from rfl, ← hstorage]

/-- The storage afterwards is what the calls make of it. -/
theorem storage_apply (op : EngineOp R) :
    (op.apply engine).storage = some ((engine.made op).foldl StorageCall.apply storage) := by
  have hafter : op.apply engine =
      (op.apply engine.withLog).mapStorage (CallLog.replay storage) := by
    conv_lhs => rw [mapStorage_withLog hstorage]
    exact apply_mapStorage (CallLog.storageHom_replay storage) op engine.withLog
  obtain ⟨calls, hcalls, -⟩ := calls_apply (storage_withLog hstorage) op
  rw [hafter]
  simp [mapStorage, made, logged?, hcalls, CallLog.replay]

omit [MappedStorage S] in
theorem pairwise_made (op : EngineOp R) : (engine.made op).Pairwise StorageCall.Apart := by
  obtain ⟨calls, hcalls, hapart⟩ := calls_apply (storage_withLog hstorage) op
  simpa [made, logged?, hcalls] using hapart

omit hstorage [MappedStorage S] in
theorem exists_log_run {engine : Engine U CallLog} {log : CallLog}
    (hlog : engine.storage = some log) (ops : List (EngineOp R)) :
    ∃ log, (engine.run ops).storage = some log := by
  induction ops generalizing engine log with
  | nil => exact ⟨log, hlog⟩
  | cons op rest ih =>
      obtain ⟨calls, hcalls, -⟩ := calls_apply hlog op
      exact ih hcalls

theorem run_eq_mapStorage (ops : List (EngineOp R)) :
    engine.run ops = (engine.withLog.run ops).mapStorage (CallLog.replay storage) := by
  conv_lhs => rw [mapStorage_withLog hstorage]
  exact run_mapStorage (CallLog.storageHom_replay storage) ops engine.withLog

theorem storage_run (ops : List (EngineOp R)) :
    (engine.run ops).storage =
      some ((engine.storageCalls ops).foldl StorageCall.apply storage) := by
  obtain ⟨log, hlog⟩ := exists_log_run (storage_withLog hstorage) ops
  rw [run_eq_mapStorage hstorage]
  simp [mapStorage, storageCalls, logged?, hlog, CallLog.replay]

/-- The calls of a run are those of its operations, one after the other. -/
theorem storageCalls_concat (ops : List (EngineOp R)) (op : EngineOp R) :
    engine.storageCalls (ops ++ [op]) = engine.storageCalls ops ++ (engine.run ops).made op := by
  obtain ⟨log, hlog⟩ := exists_log_run (storage_withLog hstorage) ops
  -- the calls of the last operation do not depend on what the storage is
  have hsame : (engine.run ops).made op = (engine.withLog.run ops).made op := by
    have hwithLog : (engine.run ops).withLog = (engine.withLog.run ops).withLog := by
      rw [run_eq_mapStorage hstorage]
      simp [withLog, mapStorage, Function.comp_def]
    rw [made, made, hwithLog]
  have hrun : engine.withLog.run (ops ++ [op]) = op.apply (engine.withLog.run ops) := by
    simp [run]
  have hcalls := CallLog.calls_replay log ((engine.withLog.run ops).made op)
  simp only [storageCalls, logged?, hrun, storage_apply hlog, hlog, hsame, Option.map_some,
    Option.getD_some]
  exact hcalls

end Replay

/-! ## In the middle of a hook -/

section Between

variable {engine : Engine U BasicMappedStorage} {m : RecordMap} {address : Address}

theorem upper_doHookFree (mem : Address) (hupper : (engine.cell address).upper = none) :
    ((engine.doHookFree mem).cell address).upper = none := by
  by_cases hmem : mem = 0
  · rw [hmem, doHookFree_null]
    exact hupper
  · rw [cell_doHookFree hmem]
    split
    · simp [Cell.discard, hupper]
    · exact hupper

theorem upper_doHookUpdateSize (mem : Address) (newsize : UInt64)
    (hupper : (engine.cell address).upper = none) :
    ((engine.doHookUpdateSize mem newsize).cell address).upper = none := by
  by_cases hmem : mem = 0
  · rw [hmem, doHookUpdateSize_null]
    exact hupper
  · rw [cell_doHookUpdateSize hmem]
    split
    · simp [Cell.rewrite, hupper]
    · exact hupper

theorem upper_doHookAlloc (ctx : Context R) {mem : Address} (hne : mem ≠ 0 → address ≠ mem)
    (memsize : UInt64) (hupper : (engine.cell address).upper = none) :
    ((engine.doHookAlloc ctx mem memsize).cell address).upper = none := by
  by_cases hmem : mem = 0
  · rw [hmem, doHookAlloc_null]
    exact hupper
  · have hsettles := settles_doHookAlloc hmem ctx memsize engine address
    rw [if_neg (hne hmem)] at hsettles
    rwa [hsettles.eq_of_upper hupper]

/-- A record that is in the storage does not come back into the cache. -/
theorem upper_apply {record : Record} (hrecord : m address = some record) {op : EngineOp R}
    (hop : op.Admissible m) (hupper : (engine.cell address).upper = none) :
    ((op.apply engine).cell address).upper = none := by
  cases op with
  | alloc ctx mem memsize =>
      refine upper_doHookAlloc ctx ?_ memsize hupper
      rintro hmem rfl
      exact absurd (hop hmem) (by simp [hrecord])
  | free mem => exact upper_doHookFree mem hupper
  | updateSize mem newsize => exact upper_doHookUpdateSize mem newsize hupper
  | realloc ctx oldMem newMem newSize =>
      show ((engine.doHookRealloc ctx oldMem newMem newSize).cell address).upper = none
      unfold doHookRealloc
      split
      · exact upper_doHookUpdateSize oldMem newSize hupper
      · next hne =>
          refine upper_doHookAlloc ctx ?_ newSize (upper_doHookFree oldMem hupper)
          rintro hmem rfl
          exact absurd (hop hmem fun heq => hne heq.symm) (by simp [hrecord])

variable {storage : BasicMappedStorage}

/-- What is stored is recorded. -/
theorem eq_some_of_stored (h : engine.Refines m) (hstorage : engine.storage = some storage)
    {record : Record} (hrecord : storage.record? address = some record) :
    m address = some record := by
  have hlower : (engine.cell address).lower = some record := by simpa [cell, hstorage] using hrecord
  rw [← h.get_eq address]
  exact (h address).1.eq_some_iff.mp (.inr hlower)

/-- What is recorded and not cached is stored. -/
theorem record?_of_upper (h : engine.Refines m) (hstorage : engine.storage = some storage)
    (hupper : (engine.cell address).upper = none) : storage.record? address = m address := by
  rw [← h.get_eq address, Cell.get, hupper, Option.none_or]
  simp [cell, hstorage]

/-- **In the middle of a hook** the storage shows nothing that is recorded neither before nor
after the hook, and everything that is recorded before and after it and was in the storage. -/
theorem between_made (h : engine.Refines m) (hstorage : engine.storage = some storage)
    {op : EngineOp R} (hop : op.Admissible m) {part : List StorageCall}
    (hpart : part <+: engine.made op) (address : Address) (record : Record) :
    let shown := (part.foldl StorageCall.apply storage).record? address
    (shown = some record → m address = some record ∨ op.applyMap m address = some record) ∧
      (m address = some record → op.applyMap m address = some record →
        (engine.cell address).upper = none → shown = some record) := by
  intro shown
  have hafter := h.apply hop
  have hstored := storage_apply hstorage op
  obtain ⟨later, hmade⟩ := hpart
  have hapart := pairwise_made hstorage op
  rw [← hmade] at hapart hstored
  have hshown : shown = storage.record? address ∨
      shown = ((part ++ later).foldl StorageCall.apply storage).record? address :=
    Run.look_foldl_append BasicMappedStorage.record?
      StorageCall.record?_apply_of_not_touches hapart storage address
  constructor
  · intro hsome
    refine hshown.imp ?_ ?_
    · exact fun hbegin => eq_some_of_stored h hstorage (hbegin ▸ hsome)
    · exact fun hend => eq_some_of_stored hafter hstored (hend ▸ hsome)
  · intro hbefore hend hupper
    rcases hshown with hshown | hshown
    · rw [hshown, record?_of_upper h hstorage hupper, hbefore]
    · rw [hshown, record?_of_upper hafter hstored (upper_apply hbefore hop hupper), hend]

end Between

end Engine

/-! ## What is still kept back -/

namespace EngineOp

/-- `now - timeout` of the flush, if the operation flushes. -/
def deadline? (timeout : Int64) : EngineOp R → Option TimePoint
  | .alloc ctx mem _ => if mem = 0 then none else some (ctx.now - nanoseconds timeout)
  | .realloc ctx oldMem newMem _ =>
      if oldMem = newMem ∨ newMem = 0 then none else some (ctx.now - nanoseconds timeout)
  | .free _ | .updateSize _ _ => none

/-- The deadline of the last flush. -/
def lastDeadline (timeout : Int64) (ops : List (EngineOp R)) : Option TimePoint :=
  ops.foldl (fun last op => (op.deadline? timeout).or last) none

end EngineOp

namespace Engine

/-- `std::numeric_limits<std::size_t>::max()`. -/
def maxItems : UInt64 := 0xffffffffffffffff

/-- Nothing is cached that was due at the deadline. -/
structure Current (timeout : Int64) (deadline : Option TimePoint) (engine : Engine U S) : Prop where
  stored : engine.storage.isSome
  timeout_eq : engine.cacheFlushTimeout = timeout
  unlimited : engine.cacheFlushMaxItems = maxItems
  keys : ∀ info ∈ engine.cache.items, info.key ≠ 0
  due : ∀ time ∈ deadline, ∀ info ∈ engine.cache.items, time.toInt ≤ info.stamp

section Current

variable {timeout : Int64} {deadline : Option TimePoint}

omit [CallStackUnwinder U R] in
/-- The cache has fewer records than there are addresses. -/
theorem length_cache_le (cache : CachedRecords) (hkeys : ∀ info ∈ cache.items, info.key ≠ 0) :
    cache.items.length ≤ maxItems.toNat := by
  have hnodup : (cache.items.map fun info => info.key.toNat).Nodup := by
    have hkeys := cache.keys_nodup.map fun x y => UInt64.toNat_inj.mp
    rwa [List.map_map] at hkeys
  have hsubset : (cache.items.map fun info => info.key.toNat).toFinset ⊆
      Finset.Ioc 0 maxItems.toNat := by
    intro n hn
    obtain ⟨info, hinfo, rfl⟩ := List.mem_map.mp (List.mem_toFinset.mp hn)
    have hpos : info.key.toNat ≠ 0 := fun hzero =>
      hkeys info hinfo (UInt64.toNat_inj.mp (by simpa using hzero))
    have hlt := info.key.toNat_lt
    have hmax : maxItems.toNat = 2 ^ 64 - 1 := rfl
    exact Finset.mem_Ioc.mpr ⟨by omega, by omega⟩
  have hcard := Finset.card_le_card hsubset
  rwa [List.toFinset_card_of_nodup hnodup, List.length_map, Nat.card_Ioc, Nat.sub_zero] at hcard

variable {engine : Engine U S}

/-- A flush leaves nothing behind that is due. -/
theorem Current.flushLocalCache (h : Current timeout deadline engine) (ctx : Context R)
    (now : TimePoint) :
    Current timeout (some (now - nanoseconds timeout))
      (engine.flushLocalCache ctx now timeout false) := by
  obtain ⟨storage, hstorage⟩ := Option.isSome_iff_exists.mp h.stored
  have hcache := cache_flushLocalCache ctx now timeout false hstorage
  have hmem : ∀ info ∈ (engine.flushLocalCache ctx now timeout false).cache.items,
      info ∈ engine.cache.items := by
    intro info hinfo
    rw [hcache] at hinfo
    exact List.mem_of_mem_drop hinfo
  have hdue : engine.dueCount now timeout false = engine.cache.items.countP fun info =>
      decide (info.stamp < (now - nanoseconds timeout).toInt) := by
    refine Nat.min_eq_right ?_
    rw [h.unlimited]
    exact List.countP_le_length.trans (length_cache_le engine.cache h.keys)
  refine ⟨?_, ?_, ?_, fun info hinfo => h.keys info (hmem info hinfo), ?_⟩
  · rw [storage_flushLocalCache ctx now timeout false hstorage]
    rfl
  · simp only [Engine.flushLocalCache, hstorage]
    exact h.timeout_eq
  · simp only [Engine.flushLocalCache, hstorage]
    exact h.unlimited
  · intro time htime info hinfo
    obtain rfl := Option.mem_some.mp htime
    rw [hcache, hdue] at hinfo
    exact le_of_mem_drop_countP engine.cache.stamps_sorted hinfo

theorem Current.doHookAlloc (h : Current timeout deadline engine) (ctx : Context R)
    {mem : Address} (hmem : mem ≠ 0) (memsize : UInt64) :
    Current timeout (some (ctx.now - nanoseconds timeout))
      (engine.doHookAlloc ctx mem memsize) := by
  obtain ⟨unwinder, cache, heq, hcache⟩ := doHookAlloc_eq engine ctx hmem memsize
  obtain rfl := h.timeout_eq
  have hannounced : Current engine.cacheFlushTimeout none
      { engine with callstackUnwinder := unwinder, cache := cache } := by
    refine ⟨h.stored, rfl, h.unlimited, ?_, fun time htime => absurd htime (by simp)⟩
    intro info hinfo
    rcases hcache info hinfo with hkey | hold
    · exact hkey ▸ hmem
    · obtain ⟨old, hmem, hkey⟩ := List.mem_map.mp hold
      exact hkey ▸ h.keys old hmem
  rw [heq]
  exact hannounced.flushLocalCache ctx ctx.now

theorem Current.doHookFree (h : Current timeout deadline engine) (mem : Address) :
    Current timeout deadline (engine.doHookFree mem) := by
  unfold Engine.doHookFree
  split
  · exact h
  · split
    · exact ⟨h.stored, h.timeout_eq, h.unlimited,
        fun info hinfo => h.keys info (List.mem_of_mem_filter hinfo),
        fun time htime info hinfo => h.due time htime info (List.mem_of_mem_filter hinfo)⟩
    · exact ⟨by simpa using h.stored, h.timeout_eq, h.unlimited, h.keys, h.due⟩

theorem Current.doHookUpdateSize (h : Current timeout deadline engine) (mem : Address)
    (newsize : UInt64) : Current timeout deadline (engine.doHookUpdateSize mem newsize) := by
  unfold Engine.doHookUpdateSize
  split
  · exact h
  · split
    · -- a record that is resized keeps its address and its time
      refine ⟨h.stored, h.timeout_eq, h.unlimited, ?_, ?_⟩
      · intro info hinfo
        obtain ⟨other, hother, rfl⟩ := List.mem_map.mp hinfo
        split
        · exact h.keys other hother
        · exact h.keys other hother
      · intro time htime info hinfo
        obtain ⟨other, hother, rfl⟩ := List.mem_map.mp hinfo
        split
        · exact h.due time htime other hother
        · exact h.due time htime other hother
    · exact ⟨by simpa using h.stored, h.timeout_eq, h.unlimited, h.keys, h.due⟩

theorem Current.apply (h : Current timeout deadline engine) (op : EngineOp R) :
    Current timeout ((op.deadline? timeout).or deadline) (op.apply engine) := by
  cases op with
  | alloc ctx mem memsize =>
      simp only [EngineOp.deadline?, EngineOp.apply]
      split
      · next hmem =>
          rw [Engine.doHookAlloc, if_pos hmem]
          exact h
      · next hmem => exact h.doHookAlloc ctx hmem memsize
  | free mem => exact h.doHookFree mem
  | updateSize mem newsize => exact h.doHookUpdateSize mem newsize
  | realloc ctx oldMem newMem newSize =>
      simp only [EngineOp.deadline?, EngineOp.apply, doHookRealloc]
      by_cases heq : oldMem = newMem
      · rw [if_pos heq, if_pos (.inl heq)]
        exact h.doHookUpdateSize oldMem newSize
      · rw [if_neg heq]
        by_cases hmem : newMem = 0
        · rw [if_pos (.inr hmem), Engine.doHookAlloc, if_pos hmem]
          exact h.doHookFree oldMem
        · rw [if_neg (by simp [heq, hmem])]
          exact (h.doHookFree oldMem).doHookAlloc ctx hmem newSize

theorem Current.run (h : Current timeout deadline engine) (ops : List (EngineOp R)) :
    Current timeout (ops.foldl (fun last op => (op.deadline? timeout).or last) deadline)
      (engine.run ops) := by
  induction ops generalizing engine deadline with
  | nil => exact h
  | cons op rest ih => exact ih (h.apply op)

end Current

/-- A record that was due at the last deadline is not cached. -/
theorem Current.upper_eq_none {timeout : Int64} {deadline : Option TimePoint}
    {engine : Engine U BasicMappedStorage} (h : Current timeout deadline engine) {m : RecordMap}
    (hrefines : engine.Refines m) {address : Address} {record : Record}
    (hrecord : m address = some record) {time : TimePoint} (htime : time ∈ deadline)
    (hdue : record.timestamp.toInt < time.toInt) : (engine.cell address).upper = none := by
  cases hupper : (engine.cell address).upper with
  | none => rfl
  | some cached =>
      have hcached : m address = some cached := by
        rw [← hrefines.get_eq address]
        exact (hrefines address).1.eq_some_iff.mp (.inl hupper)
      obtain rfl : record = cached := Option.some.inj (hrecord.symm.trans hcached)
      obtain ⟨info, hfind, rfl⟩ := Option.map_eq_some_iff.mp hupper
      have hstamp : time.toInt ≤ info.stamp :=
        h.due time htime info (Container.find?_eq_some.mp hfind).1
      exact absurd hdue (not_lt.mpr hstamp)

end Engine

end Memhook
