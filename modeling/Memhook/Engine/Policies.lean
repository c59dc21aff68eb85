import Memhook.Engine.Refinement
import Memhook.Engine.SymbolCache

/-!
# The two symbolisation policies agree

Under `kUnwindCallStackWhen` the frames of a record are resolved when it is announced,
under `kFlushLocalCacheWhen` when it leaves the cache.  With a fixed resolver both engines
stay `Alike`: same storage, and the cache of the first is the cache of the second with
every call stack resolved.  The symbol caches of the two may hold quite different entries,
depending on the order of the lookups, the evictions and the flushes; all that matters is
that both are coherent.
-/

namespace Memhook

open MultiIndex

/-- A call stack item as an uncached resolution fills it in. -/
def Resolver.resolveItem (resolver : Resolver) (item : CallStackInfoItem) : CallStackInfoItem :=
  Impl.setProcInfo item (resolver.uncached item.ip)

/-- A record with its call stack resolved. -/
def TraceInfo.resolve (resolver : Resolver) (info : TraceInfo) : TraceInfo :=
  info.setCallstack (info.callstack.map resolver.resolveItem)

theorem TraceInfo.key_resolve (resolver : Resolver) (info : TraceInfo) :
    (info.resolve resolver).key = info.key := rfl

theorem TraceInfo.stamp_resolve (resolver : Resolver) (info : TraceInfo) :
    (info.resolve resolver).stamp = info.stamp := rfl

/-- The cached records with all their call stacks resolved. -/
def CachedRecords.resolve (resolver : Resolver) (cache : CachedRecords) : CachedRecords :=
  cache.map (TraceInfo.resolve resolver) (TraceInfo.key_resolve resolver)
    (TraceInfo.stamp_resolve resolver)

/-! ## Cached lookups of whole call stacks -/

namespace Impl.Usable

variable {resolver : Resolver} {unwinder : Usable}

theorem lookup_spec (hresolver : resolver.Consistent) (h : unwinder.1.Coherent resolver)
    {procName : Option (Bytes × Address)} {ip : Address}
    (hprocName : procName = resolver.getProcName ip) :
    (unwinder.lookup procName (resolver.dladdr ip) ip).1 = resolver.uncached ip ∧
      (unwinder.lookup procName (resolver.dladdr ip) ip).2.1.Coherent resolver := by
  subst hprocName
  unfold lookup
  split
  next found hfound => exact h.getUnwProcInfoByIP hresolver hfound
  next hnone =>
    have hsome := getUnwProcInfo_isSome (resolver.getProcName ip) (resolver.dladdr ip)
      unwinder.2 ip
    rw [hnone] at hsome
    simp at hsome

/-- `GetUnwProcInfo` along a walk. -/
theorem unwindLoop_spec (hresolver : resolver.Consistent)
    (hnames : ∀ ip, resolver.unwGetProcName ip = resolver.getProcName ip) (frames : List Frame)
    (h : unwinder.1.Coherent resolver) :
    (unwindLoop resolver true frames unwinder).1 =
        frames.map (fun frame => resolver.resolveItem (newItem frame)) ∧
      (unwindLoop resolver true frames unwinder).2.1.Coherent resolver := by
  induction frames generalizing unwinder with
  | nil => exact ⟨rfl, h⟩
  | cons frame rest ih =>
      obtain ⟨hfound, hcoherent⟩ := lookup_spec hresolver h (hnames frame.ip)
      obtain ⟨htail, htailCoherent⟩ := ih hcoherent
      refine ⟨?_, htailCoherent⟩
      simp only [unwindLoop, if_true, List.map_cons, htail, hfound]
      rfl

/-- Without resolution the items are bare, and no lookup is made. -/
theorem unwindLoop_false (frames : List Frame) :
    unwindLoop resolver false frames unwinder = (frames.map newItem, unwinder) := by
  induction frames with
  | nil => rfl
  | cons frame rest ih => simp [unwindLoop, ih]

/-- `GetUnwProcInfoByIP` along a call stack. -/
theorem resolveLoop_spec (hresolver : resolver.Consistent) (callstack : CallStackInfo)
    (h : unwinder.1.Coherent resolver) :
    (resolveLoop resolver callstack unwinder).1 = callstack.map resolver.resolveItem ∧
      (resolveLoop resolver callstack unwinder).2.1.Coherent resolver := by
  induction callstack generalizing unwinder with
  | nil => exact ⟨rfl, h⟩
  | cons item rest ih =>
      obtain ⟨hfound, hcoherent⟩ := lookup_spec hresolver h (rfl : _ = resolver.getProcName item.ip)
      obtain ⟨htail, htailCoherent⟩ := ih hcoherent
      refine ⟨?_, htailCoherent⟩
      simp only [resolveLoop, List.map_cons, htail, hfound]
      rfl

end Impl.Usable

/-! ## Two engines side by side -/

namespace Engine

variable {S : Type*} [MappedStorage S]

/-- One engine resolves early, the other one late, and nothing else tells them apart. -/
structure Alike (resolver : Resolver) (early late : Engine Impl.Usable S) : Prop where
  earlyPolicy : early.getprocinfoPolicy = .kUnwindCallStackWhen
  latePolicy : late.getprocinfoPolicy = .kFlushLocalCacheWhen
  storage : early.storage = late.storage
  cache : early.cache = CachedRecords.resolve resolver late.cache
  timeout : early.cacheFlushTimeout = late.cacheFlushTimeout
  maxItems : early.cacheFlushMaxItems = late.cacheFlushMaxItems
  earlyCoherent : early.callstackUnwinder.1.Coherent resolver
  lateCoherent : late.callstackUnwinder.1.Coherent resolver

/-- The loop of a flush: what was resolved early is what is resolved now. -/
theorem dump_alike {resolver : Resolver} (hresolver : resolver.Consistent)
    (batch : List TraceInfo) (early : Impl.Usable) {late : Impl.Usable}
    (hlate : late.1.Coherent resolver) (storage : S) :
    dump resolver .kUnwindCallStackWhen (batch.map (TraceInfo.resolve resolver)) early storage =
        (early, (dump resolver .kFlushLocalCacheWhen batch late storage).2) ∧
      (dump resolver .kFlushLocalCacheWhen batch late storage).1.1.Coherent resolver := by
  induction batch generalizing late storage with
  | nil => exact ⟨rfl, hlate⟩
  | cons info rest ih =>
      obtain ⟨hresolved, hcoherent⟩ := Impl.Usable.resolveLoop_spec hresolver info.callstack hlate
      obtain ⟨hdump, hfinal⟩ := ih hcoherent
        (MappedStorage.add storage info.address info.memsize
          (Impl.Usable.resolveLoop resolver info.callstack late).1 info.timestamp)
      refine ⟨?_, hfinal⟩
      simp only [List.map_cons, dump, reduceCtorEq, if_false, if_true]
      rw [hresolved] at hdump
      exact hdump.trans (by rw [← hresolved]; rfl)

namespace Alike

variable {resolver : Resolver} {early late : Engine Impl.Usable S}

omit [MappedStorage S] in
theorem flushBatch (h : Alike resolver early late) (now : TimePoint) (timeout : Int64)
    (dumpAll : Bool) :
    early.flushBatch now timeout dumpAll =
      (late.flushBatch now timeout dumpAll).map (TraceInfo.resolve resolver) := by
  unfold Engine.flushBatch
  rw [h.cache, h.maxItems]
  split
  · rfl
  · simp only [CachedRecords.resolve, Container.map, List.takeWhile_map, ← List.map_take]
    rfl

theorem flushLocalCache (h : Alike resolver early late) (hresolver : resolver.Consistent)
    {ctx : Context Resolver} (hctx : ctx.resolver = resolver) (now : TimePoint) (timeout : Int64)
    (dumpAll : Bool) :
    Alike resolver (early.flushLocalCache ctx now timeout dumpAll)
      (late.flushLocalCache ctx now timeout dumpAll) := by
  subst hctx
  cases hstorage : late.storage with
  | none =>
      unfold Engine.flushLocalCache
      simp only [h.storage, hstorage]
      exact h
  | some storage =>
      obtain ⟨hdump, hfinal⟩ := dump_alike hresolver (late.flushBatch now timeout dumpAll)
        early.callstackUnwinder h.lateCoherent storage
      unfold Engine.flushLocalCache
      simp only [h.storage, hstorage, h.earlyPolicy, h.latePolicy, h.flushBatch, hdump,
        List.length_map]
      refine ⟨rfl, rfl, rfl, ?_, h.timeout, h.maxItems, h.earlyCoherent, hfinal⟩
      exact (congrArg (Container.dropFront · _) h.cache).trans
        (Container.dropFront_map _ _ _ late.cache _)

omit [MappedStorage S] in
theorem emplace_cache (h : Alike resolver early late) (mem : Address) (memsize : UInt64)
    (now : TimePoint) :
    early.cache.emplace ⟨⟨mem, memsize, now⟩, []⟩ =
      (CachedRecords.resolve resolver (late.cache.emplace ⟨⟨mem, memsize, now⟩, []⟩).1,
        (late.cache.emplace ⟨⟨mem, memsize, now⟩, []⟩).2) := by
  rw [h.cache]
  exact Container.emplace_map _ _ _ late.cache rfl

theorem doHookAlloc (h : Alike resolver early late) (hresolver : resolver.Consistent)
    (hnames : ∀ ip, resolver.unwGetProcName ip = resolver.getProcName ip)
    {ctx : Context Resolver} (hctx : ctx.resolver = resolver) (mem : Address) (memsize : UInt64) :
    Alike resolver (early.doHookAlloc ctx mem memsize) (late.doHookAlloc ctx mem memsize) := by
  subst hctx
  unfold Engine.doHookAlloc
  by_cases hmem : mem = 0
  · simp only [if_pos hmem]
    exact h
  · simp only [if_neg hmem, h.timeout]
    refine flushLocalCache ?_ hresolver rfl ctx.now late.cacheFlushTimeout false
    refine ⟨h.earlyPolicy, h.latePolicy, h.storage, ?_, rfl, h.maxItems, ?_, ?_⟩
    all_goals simp only [h.earlyPolicy, h.latePolicy, CallStackUnwinder.getCallStackInfo,
      decide_true, reduceCtorEq, decide_false]
    · -- the new record has its call stack swapped in, resolved or bare
      have hemplace := h.emplace_cache mem memsize ctx.now
      simp only [hemplace]
      split
      · refine Container.modify_map _ _ _ _ _ _ _ _ _ ?_
        intro info
        rw [(Impl.Usable.unwindLoop_spec hresolver hnames (walk ctx.frames 2) h.earlyCoherent).1,
          Impl.Usable.unwindLoop_false]
        simp [TraceInfo.resolve, TraceInfo.setCallstack, List.map_map, Function.comp_def]
      · rfl
    · exact (Impl.Usable.unwindLoop_spec hresolver hnames (walk ctx.frames 2) h.earlyCoherent).2
    · rw [Impl.Usable.unwindLoop_false]
      exact h.lateCoherent

omit [MappedStorage S] in
theorem find?_cache (h : Alike resolver early late) (mem : Address) :
    early.cache.find? mem = (late.cache.find? mem).map (TraceInfo.resolve resolver) := by
  rw [h.cache]
  exact Container.find?_map _ _ _ late.cache mem

theorem doHookFree (h : Alike resolver early late) (mem : Address) :
    Alike resolver (early.doHookFree mem) (late.doHookFree mem) := by
  by_cases hmem : mem = 0
  · simp only [Engine.doHookFree, if_pos hmem]
    exact h
  · cases hfind : late.cache.find? mem with
    | some info =>
        simp only [Engine.doHookFree, if_neg hmem, h.find?_cache, hfind, Option.map_some]
        refine ⟨h.earlyPolicy, h.latePolicy, h.storage, ?_, h.timeout, h.maxItems,
          h.earlyCoherent, h.lateCoherent⟩
        simp only [h.cache]
        exact Container.erase_map _ _ _ late.cache mem
    | none =>
        simp only [Engine.doHookFree, if_neg hmem, h.find?_cache, hfind, Option.map_none]
        refine ⟨h.earlyPolicy, h.latePolicy, ?_, h.cache, h.timeout, h.maxItems, h.earlyCoherent,
          h.lateCoherent⟩
        simp only [h.storage]

theorem doHookUpdateSize (h : Alike resolver early late) (mem : Address) (newsize : UInt64) :
    Alike resolver (early.doHookUpdateSize mem newsize) (late.doHookUpdateSize mem newsize) := by
  by_cases hmem : mem = 0
  · simp only [Engine.doHookUpdateSize, if_pos hmem]
    exact h
  · cases hfind : late.cache.find? mem with
    | some info =>
        simp only [Engine.doHookUpdateSize, if_neg hmem, h.find?_cache, hfind, Option.map_some]
        refine ⟨h.earlyPolicy, h.latePolicy, h.storage, ?_, h.timeout, h.maxItems,
          h.earlyCoherent, h.lateCoherent⟩
        simp only [h.cache]
        exact Container.modify_map _ _ _ late.cache mem _ _ _ _ fun _ => rfl
    | none =>
        simp only [Engine.doHookUpdateSize, if_neg hmem, h.find?_cache, hfind, Option.map_none]
        refine ⟨h.earlyPolicy, h.latePolicy, ?_, h.cache, h.timeout, h.maxItems, h.earlyCoherent,
          h.lateCoherent⟩
        simp only [h.storage]

theorem doHookRealloc (h : Alike resolver early late) (hresolver : resolver.Consistent)
    (hnames : ∀ ip, resolver.unwGetProcName ip = resolver.getProcName ip)
    {ctx : Context Resolver} (hctx : ctx.resolver = resolver) (oldMem newMem : Address)
    (newSize : UInt64) :
    Alike resolver (early.doHookRealloc ctx oldMem newMem newSize)
      (late.doHookRealloc ctx oldMem newMem newSize) := by
  unfold Engine.doHookRealloc
  split
  · exact h.doHookUpdateSize oldMem newSize
  · exact (h.doHookFree oldMem).doHookAlloc hresolver hnames hctx newMem newSize

omit [MappedStorage S] in
theorem doFlushCallStackCache (h : Alike resolver early late) :
    Alike resolver early.doFlushCallStackCache late.doFlushCallStackCache :=
  ⟨h.earlyPolicy, h.latePolicy, h.storage, h.cache, h.timeout, h.maxItems,
    Impl.coherent_flushUnwCache resolver _, Impl.coherent_flushUnwCache resolver _⟩

end Alike

end Engine

/-! ## Whole runs -/

/-- The calls on an engine, those that flush the symbol cache included. -/
inductive SymbolOp
  | call (op : EngineOp Resolver)
  | flushCallStackCache

namespace SymbolOp

def apply {S : Type*} [MappedStorage S] (engine : Engine Impl.Usable S) :
    SymbolOp → Engine Impl.Usable S
  | call op => op.apply engine
  | flushCallStackCache => engine.doFlushCallStackCache

/-- What the call asks libunwind and `dladdr` is answered by this resolver. -/
def Asks (resolver : Resolver) : SymbolOp → Prop
  | call (.alloc ctx _ _) | call (.realloc ctx _ _ _) => ctx.resolver = resolver
  | _ => True

end SymbolOp

namespace Engine

variable {S : Type*} [MappedStorage S] {resolver : Resolver}

theorem Alike.apply {early late : Engine Impl.Usable S} (h : Alike resolver early late)
    (hresolver : resolver.Consistent)
    (hnames : ∀ ip, resolver.unwGetProcName ip = resolver.getProcName ip) {op : SymbolOp}
    (hop : op.Asks resolver) : Alike resolver (op.apply early) (op.apply late) := by
  cases op with
  | flushCallStackCache => exact h.doFlushCallStackCache
  | call op =>
      cases op with
      | alloc ctx mem memsize => exact h.doHookAlloc hresolver hnames hop mem memsize
      | free mem => exact h.doHookFree mem
      | realloc ctx oldMem newMem newSize =>
          exact h.doHookRealloc hresolver hnames hop oldMem newMem newSize
      | updateSize mem newsize => exact h.doHookUpdateSize mem newsize

omit [MappedStorage S] in
theorem alike_onInitialize (resolver : Resolver) (storage : Option S)
    (cacheMaxSize : Option UInt64) (hcap : cacheMaxSize ≠ some 0) (timeout : Int64)
    (maxItems : UInt64) :
    Alike resolver
      (onInitialize storage (.new cacheMaxSize hcap) timeout maxItems .kUnwindCallStackWhen)
      (onInitialize storage (.new cacheMaxSize hcap) timeout maxItems .kFlushLocalCacheWhen) :=
  ⟨rfl, rfl, rfl, rfl, rfl, rfl, Impl.coherent_new resolver cacheMaxSize,
    Impl.coherent_new resolver cacheMaxSize⟩

/-- **The policies agree.**  Whatever is called, whenever the symbol cache is flushed and
however small it is, `OnDestroy` gives up the same storage under both policies. -/
theorem onDestroy_policies_eq (hresolver : resolver.Consistent)
    (hnames : ∀ ip, resolver.unwGetProcName ip = resolver.getProcName ip) (storage : Option S)
    (cacheMaxSize : Option UInt64) (hcap : cacheMaxSize ≠ some 0) (timeout : Int64)
    (maxItems : UInt64) {ops : List SymbolOp} (hops : ∀ op ∈ ops, op.Asks resolver)
    {ctx : Context Resolver} (hctx : ctx.resolver = resolver) :
    ((ops.foldl SymbolOp.apply (onInitialize storage (.new cacheMaxSize hcap) timeout maxItems
        .kUnwindCallStackWhen)).onDestroy ctx).2 =
      ((ops.foldl SymbolOp.apply (onInitialize storage (.new cacheMaxSize hcap) timeout maxItems
        .kFlushLocalCacheWhen)).onDestroy ctx).2 := by
  have hstep : ∀ {early late : Engine Impl.Usable S} {op : SymbolOp}, Alike resolver early late →
      op.Asks resolver → Alike resolver (op.apply early) (op.apply late) :=
    fun h hop => h.apply hresolver hnames hop
  have hrun := Run.simulation hstep
    (alike_onInitialize resolver storage cacheMaxSize hcap timeout maxItems)
    (Run.Along.of_forall hops)
  exact (hrun.flushLocalCache hresolver hctx ctx.now 0 true).storage

/-- A call below the procedure `f`, one second after the epoch. -/
def belowF : Context Resolver := ⟨1000000000, [⟨1, 1⟩, ⟨2, 2⟩, ⟨4100, 3⟩], Process.loaded⟩

/-- A record is announced, the symbol cache is flushed, and a second record is announced
and released. -/
def flushedBetween : List SymbolOp :=
  [.call (.alloc belowF 16 8), .flushCallStackCache, .call (.alloc belowF 32 4), .call (.free 32)]

theorem onDestroy_policies_eq_belowF :
    ((flushedBetween.foldl SymbolOp.apply (onInitialize (some BasicMappedStorage.empty)
        (.new (some 1) (by decide)) 2 10 .kUnwindCallStackWhen)).onDestroy belowF).2 =
      ((flushedBetween.foldl SymbolOp.apply (onInitialize (some BasicMappedStorage.empty)
        (.new (some 1) (by decide)) 2 10 .kFlushLocalCacheWhen)).onDestroy belowF).2 ∧
    (((flushedBetween.foldl SymbolOp.apply (onInitialize (some BasicMappedStorage.empty)
        (.new (some 1) (by decide)) 2 10 .kUnwindCallStackWhen)).onDestroy belowF).2.map
      fun storage => (storage.indexedContainer.items, storage.symtab 4100, storage.shltab 4096)) =
        some ([⟨⟨16, 8, 1000000000⟩, [⟨4096, 4100, 3, 4⟩]⟩], some [102], some [108]) := by
  refine ⟨onDestroy_policies_eq Process.consistent_loaded (fun _ => rfl) _ _ (by decide) 2 10 ?_
    rfl, by decide⟩
  intro op hop
  simp only [flushedBetween, List.mem_cons, List.not_mem_nil, or_false] at hop
  rcases hop with rfl | rfl | rfl | rfl <;> first | exact rfl | exact trivial

end Engine

end Memhook
