import Memhook.Hooks.HeapTracking
import Memhook.View.Snapshots
import Memhook.View.SortOrder

/-!
# The report lists the blocks that were not freed

From the calls of a program to what `memview` prints afterwards.  The hooks of the heap functions
announce blocks to the engine, the engine keeps them in its cache and its storage, `OnDestroy`
leaves everything in the storage, and the viewer goes through an index of it.

`runMap` is the map of records that the calls amount to.  Its sizes are the blocks that exist, and
the report shows the records of this map that the options accept.  Options that measure from the
start are left out: which record they take for the start depends on the order
(`Memhook.View.SortOrder`).
-/

namespace Memhook

open MappedViewOption

/-! ## Options that look at one record -/

namespace MappedViewBase

/-- No option measures from the start. -/
def Plain (base : MappedViewBase) : Prop := ∀ option ∈ base.options, ¬ option.FromStart

/-- All options accept the record. -/
def accepts (base : MappedViewBase) (info : TraceInfoBase) : Bool :=
  base.options.all fun option => (option.call info).1

end MappedViewBase

theorem MappedViewOption.call_snd_of_not_fromStart {option : MappedViewOption}
    (h : ¬ option.FromStart) (info : TraceInfoBase) : (option.call info).2 = option := by
  cases option with
  | minTimeFromStart => exact absurd trivial h
  | maxTimeFromStart => exact absurd trivial h
  | _ => rfl

theorem checkOptions_of_not_fromStart {options : List MappedViewOption}
    (h : ∀ option ∈ options, ¬ option.FromStart) (info : TraceInfoBase) :
    MappedViewBase.checkOptions options info =
      (options.all fun option => (option.call info).1, options) := by
  induction options with
  | nil => rfl
  | cons option rest ih =>
      obtain ⟨hoption, hrest⟩ := List.forall_mem_cons.mp h
      rw [MappedViewBase.checkOptions, ih hrest, call_snd_of_not_fromStart hoption]
      cases hcall : (option.call info).1 <;> simp [hcall]

theorem accepted_of_plain {base : MappedViewBase} (h : base.Plain) (index : List BasicTraceInfo) :
    accepted base.options index = index.filter fun tinfo => base.accepts tinfo.toTraceInfoBase := by
  unfold accepted
  induction index with
  | nil => rfl
  | cons tinfo rest ih =>
      rw [Sieve.sift, checkOptions_of_not_fromStart h, ih, List.filter_cons]
      rfl

/-! ## What is printed about a database -/

/-- The entry is about this record. -/
def Printed.Shows (showCallStack : Bool) (address : Address) (record : Record) (entry : Printed) :
    Prop :=
  entry.info = ⟨address, record.memsize, record.timestamp⟩ ∧
    entry.callstack.map PrintedFrame.ip = if showCallStack then record.ips else []

theorem SimpleTraceInfoPrinter.shows_print (container : BasicMappedStorage) (showCallStack : Bool)
    (tinfo : BasicTraceInfo) :
    (print container showCallStack tinfo).Shows showCallStack tinfo.address tinfo.toRecord := by
  refine ⟨rfl, ?_⟩
  cases showCallStack with
  | true => simp [print, printFrame, BasicTraceInfo.toRecord, Function.comp_def]
  | false => rfl

/-- The order that `WriteImpl` prints in. -/
def MappedViewBase.InOrder (base : MappedViewBase) (x y : TraceInfoBase) : Prop :=
  if base.getOptionFlag .kSortByAddress then x.address ≤ y.address
  else if base.getOptionFlag .kSortBySize then x.memsize ≤ y.memsize
  else x.timestamp.toInt ≤ y.timestamp.toInt

namespace BasicMappedView

variable (view : BasicMappedView)

theorem index_perm :
    (BasicSimpleMappedView.index view).Perm view.container.indexedContainer.items := by
  unfold BasicSimpleMappedView.index
  split
  · exact view.indexes.byAddress_perm
  · split
    · exact view.indexes.bySize_perm
    · exact List.Perm.refl _

theorem index_inOrder :
    (BasicSimpleMappedView.index view).Pairwise fun x y =>
      view.base.InOrder x.toTraceInfoBase y.toTraceInfoBase := by
  unfold BasicSimpleMappedView.index MappedViewBase.InOrder
  split
  · exact view.indexes.byAddress_sorted
  · split
    · exact view.indexes.bySize_sorted
    · exact view.container.indexedContainer.stamps_sorted

variable {view}

theorem writeImpl_of_plain (h : view.base.Plain) :
    BasicSimpleMappedView.writeImpl (fun _ => false) view =
      ((BasicSimpleMappedView.index view).filter fun tinfo =>
        view.base.accepts tinfo.toTraceInfoBase).map
          (SimpleTraceInfoPrinter.print view.container
            (view.base.getOptionFlag .kShowCallStack)) := by
  rw [BasicSimpleMappedView.writeImpl, forEachDo_eq, accepted_of_plain h]

end BasicMappedView

/-- The report is the part of the map that the options accept: every record once, nothing else,
in the order of the view. -/
structure MappedViewBase.Lists (base : MappedViewBase) (m : RecordMap) (printed : List Printed) :
    Prop where
  distinct : (printed.map fun entry => entry.info.address).Nodup
  complete : ∀ address record, m address = some record →
    base.accepts ⟨address, record.memsize, record.timestamp⟩ →
    ∃ entry ∈ printed, entry.Shows (base.getOptionFlag .kShowCallStack) address record
  sound : ∀ entry ∈ printed, base.accepts entry.info ∧
    ∃ record, m entry.info.address = some record ∧
      entry.Shows (base.getOptionFlag .kShowCallStack) entry.info.address record
  inOrder : printed.Pairwise fun x y => base.InOrder x.info y.info

namespace BasicMappedView

variable {view : BasicMappedView} {m : RecordMap}

theorem mem_index_iff {tinfo : BasicTraceInfo} :
    tinfo ∈ BasicSimpleMappedView.index view ↔
      view.container.indexedContainer.find? tinfo.address = some tinfo := by
  rw [view.index_perm.mem_iff, MultiIndex.Container.find?_eq_some]
  exact (and_iff_left rfl).symm

variable (view) in
theorem lists_writeImpl (hplain : view.base.Plain)
    (hrecords : ∀ address, view.container.record? address = m address) :
    view.base.Lists m (BasicSimpleMappedView.writeImpl (fun _ => false) view) := by
  rw [writeImpl_of_plain hplain]
  refine ⟨?_, ?_, ?_, ?_⟩
  · have hkeys : ((BasicSimpleMappedView.index view).map BasicTraceInfo.key).Nodup :=
      (view.index_perm.map _).nodup_iff.mpr view.container.indexedContainer.keys_nodup
    rw [List.map_map]
    exact hkeys.sublist (List.filter_sublist.map _)
  · intro address record hrecord haccepts
    rw [← hrecords address, BasicMappedStorage.record?, Option.map_eq_some_iff] at hrecord
    obtain ⟨tinfo, hfind, rfl⟩ := hrecord
    obtain ⟨hmem, rfl⟩ := MultiIndex.Container.find?_eq_some.mp hfind
    refine ⟨_, List.mem_map_of_mem (List.mem_filter.mpr ⟨?_, haccepts⟩),
      SimpleTraceInfoPrinter.shows_print _ _ tinfo⟩
    exact mem_index_iff.mpr hfind
  · intro entry hentry
    obtain ⟨tinfo, htinfo, rfl⟩ := List.mem_map.mp hentry
    obtain ⟨hmem, haccepts⟩ := List.mem_filter.mp htinfo
    refine ⟨haccepts, tinfo.toRecord, ?_, SimpleTraceInfoPrinter.shows_print _ _ tinfo⟩
    rw [← hrecords]
    exact congrArg (Option.map BasicTraceInfo.toRecord) (mem_index_iff.mp hmem)
  · exact List.pairwise_map.mpr (view.index_inOrder.sublist List.filter_sublist)

variable (view) in
/-- The aggregated view counts the records that the simple one prints. -/
theorem aggregated_totals (hashCombine : UInt64 → UInt64 → UInt64)
    (indexes : (container : AggregatedIndexedContainer) → AggregatedIndexes container)
    (hplain : view.base.Plain) :
    let printed := BasicSimpleMappedView.writeImpl (fun _ => false) view
    let groups := BasicAggregatedMappedView.forEachDo hashCombine (fun _ => false) indexes
      view.container.indexedContainer.items view.base
    (groups.map fun group => group.times.toNat).sum % 2 ^ 64 = printed.length % 2 ^ 64 ∧
      (groups.map fun group => group.memsize.toNat).sum % 2 ^ 64 =
        (printed.map fun entry => entry.info.memsize.toNat).sum % 2 ^ 64 := by
  intro printed groups
  have hspec := (BasicAggregatedMappedView.forEachDo_spec hashCombine (fun _ => rfl) indexes
    view.container.indexedContainer.items view.base).1
  have hgroups := groupsRecords_of_groups hspec
  -- both views go through the same records, in two orders
  have hperm : (accepted view.base.options view.container.indexedContainer.items).Perm
      ((BasicSimpleMappedView.index view).filter fun tinfo =>
        view.base.accepts tinfo.toTraceInfoBase) := by
    rw [accepted_of_plain hplain]
    exact (view.index_perm.filter _).symm
  have hprinted : printed = _ := writeImpl_of_plain hplain
  rw [hprinted]
  constructor
  · rw [hgroups.totalTimes, hperm.length_eq, List.length_map]
  · rw [hgroups.totalMemsize, (hperm.map _).sum_eq, List.map_map]
    rfl

end BasicMappedView

/-! ## The calls of a program -/

namespace HookCall

/-- A call on the heap that does what the hook takes it to have done: a `posix_memalign` that
fails leaves `NULL`, and a `realloc` does not fail. -/
def Faithful : HookCall → Prop
  | malloc _ _ | calloc _ _ _ | memalign _ _ | alignedAlloc _ _ | valloc _ _ | pvalloc _ _
  | cppNew _ _ | free _ | cfree _ | cppDelete _ => True
  | posixMemalign _ rs memptr => rs = 0 ∨ memptr = 0
  | realloc oldMem size newMem => ¬ (realloc oldMem size newMem).FailedRealloc
  | mmap _ _ _ _ _ | mmap64 _ _ _ _ _ | mremap _ _ _ _ _ | munmap _ _ _ => False

variable {R : Type*} {m : RecordMap} {blocks : Blocks}

theorem step_sizes_free (hsizes : m.sizes = blocks) (mem : Address) :
    ((EngineOp.free mem : EngineOp R).applyMap m).sizes = blocks.released mem := by
  rw [EngineOp.applyMap, RecordMap.sizes_free, hsizes]

theorem step_sizes_faithful (ctx : Context R) {call : HookCall} (hfaithful : call.Faithful)
    (hpossible : call.Possible blocks) (hsizes : m.sizes = blocks) :
    (call.engineOp ctx).Admissible m ∧
      ((call.engineOp ctx).applyMap m).sizes = call.blocksAfter blocks := by
  cases call with
  | malloc | calloc | memalign | free =>
      exact step_sizes ctx trivial hpossible id hsizes
  | realloc => exact step_sizes ctx trivial hpossible hfaithful hsizes
  | alignedAlloc size mem | valloc size mem | pvalloc size mem | cppNew size mem =>
      exact step_sizes_alloc hsizes ctx hpossible size
  | posixMemalign size rs memptr =>
      by_cases hrs : rs = 0
      · have hblocks : (posixMemalign size rs memptr).blocksAfter blocks =
            blocks.allocated memptr size := by simp [blocksAfter, hrs]
        rw [hblocks]
        exact step_sizes_alloc hsizes ctx (hpossible hrs) size
      · obtain rfl : memptr = 0 := hfaithful.resolve_left hrs
        have hblocks : (posixMemalign size rs 0).blocksAfter blocks = blocks.allocated 0 size := by
          simp [blocksAfter, hrs, Blocks.allocated]
        rw [hblocks]
        exact step_sizes_alloc hsizes ctx (fun hnull => absurd rfl hnull) size
  | cfree mem | cppDelete mem => exact ⟨trivial, step_sizes_free hsizes mem⟩
  | mmap | mmap64 | mremap | munmap => exact hfaithful.elim

end HookCall

namespace World

variable {U R : Type*} [CallStackUnwinder U R]

/-- What the calls amount to on the map of records. -/
def engineOps (calls : List (Context R × HookCall)) : List (EngineOp R) :=
  calls.map fun call => call.2.engineOp call.1

/-- The calls of the hooks are operations of the engine. -/
theorem engine_run (world : World U) (calls : List (Context R × HookCall)) :
    (world.run calls).engine = world.engine.run (engineOps calls) := by
  induction calls generalizing world with
  | nil => rfl
  | cons call rest ih =>
      have hfirst : (world.call call).engine = (call.2.engineOp call.1).apply world.engine := by
        rw [World.call, HookCall.hook_eq_engineOp]
      rw [World.run, List.foldl_cons, ← World.run, ih, hfirst]
      rfl

/-- The engine stands for the map of the calls, and the map for the blocks. -/
theorem refines_run {world : World U} {m : RecordMap} (hrefines : world.engine.Refines m)
    (hsizes : m.sizes = world.blocks) {calls : List (Context R × HookCall)}
    (hfaithful : ∀ call ∈ calls, call.2.Faithful) (hpossible : PossibleFrom world.blocks calls) :
    (world.run calls).engine.Refines ((engineOps calls).foldl EngineOp.applyMap m) ∧
      RecordMap.sizes ((engineOps calls).foldl EngineOp.applyMap m) = (world.run calls).blocks := by
  induction calls generalizing world m with
  | nil => exact ⟨hrefines, hsizes⟩
  | cons call rest ih =>
      obtain ⟨hcall, hrest⟩ := List.forall_mem_cons.mp hfaithful
      obtain ⟨hadmissible, hafter⟩ :=
        HookCall.step_sizes_faithful call.1 hcall hpossible.1 hsizes
      have hnext : (world.call call).engine.Refines ((call.2.engineOp call.1).applyMap m) := by
        rw [World.call, HookCall.hook_eq_engineOp]
        exact hrefines.apply hadmissible
      exact ih hnext hafter hrest hpossible.2

theorem isSome_storage_run (world : World U) (calls : List (Context R × HookCall)) :
    (world.run calls).engine.storage.isSome = world.engine.storage.isSome := by
  induction calls generalizing world with
  | nil => rfl
  | cons call rest ih =>
      rw [World.run, List.foldl_cons, ← World.run, ih, World.call, HookCall.hook_eq_engineOp,
        Engine.isSome_storage_apply]

/-- **The report lists the blocks that were not freed.**  After any calls of the heap functions
with any outcomes, and the end of the engine, the map of the calls has a record of exactly the
blocks that exist, with their sizes.  What a simple view then prints of the storage is this map:
every record that the options accept, once, with the time and the call stack of its allocation,
and nothing else, in the order that the flags ask for.  An aggregated view of the same options
accounts for the same blocks and bytes.  The interval and the limit of the flushes, the unwinder
and its cache make no difference. -/
theorem report_lists_live_blocks (unwinder : U) (timeout : Int64) (maxItems : UInt64)
    (policy : CallStackUnwindProcInfoPolicy) (calls : List (Context R × HookCall))
    (hfaithful : ∀ call ∈ calls, call.2.Faithful) (hpossible : PossibleFrom (fun _ => none) calls)
    (ctx : Context R) (base : MappedViewBase) (hplain : base.Plain) (traversals : Traversals) :
    let world := (initial true unwinder timeout maxItems policy).run calls
    let records := Engine.runMap (engineOps calls)
    (∀ address, world.blocks address = (records address).map Record.memsize) ∧
      ∃ database, (world.engine.onDestroy ctx).2 = some database ∧
        let view : BasicMappedView :=
          ⟨base, database, traversals.indexes database.indexedContainer⟩
        let printed := BasicSimpleMappedView.writeImpl (fun _ => false) view
        let groups := BasicAggregatedMappedView.forEachDo traversals.hashCombine (fun _ => false)
          traversals.aggregated database.indexedContainer.items base
        base.Lists records printed ∧
          (groups.map fun group => group.times.toNat).sum % 2 ^ 64 = printed.length % 2 ^ 64 ∧
          (groups.map fun group => group.memsize.toNat).sum % 2 ^ 64 =
            (printed.map fun entry => entry.info.memsize.toNat).sum % 2 ^ 64 := by
  intro world records
  obtain ⟨hrefines, hsizes⟩ := refines_run
    (refines_initial true unwinder timeout maxItems policy) rfl hfaithful hpossible
  refine ⟨fun address => (congrFun hsizes address).symm, ?_⟩
  have hstorage : world.engine.storage.isSome := isSome_storage_run _ _
  obtain ⟨-, database, hdatabase, hrecords⟩ := hrefines.onDestroy hstorage ctx
  refine ⟨database, hdatabase, ?_⟩
  intro view printed groups
  exact ⟨view.lists_writeImpl hplain hrecords,
    view.aggregated_totals traversals.hashCombine traversals.aggregated hplain⟩

/-- The block that was moved twice is the only one that is left. -/
theorem report_lists_live_blocks_sampleCalls :
    let world := (initial true Impl.Usable.initial 0 1 .kFlushLocalCacheWhen).run sampleCalls
    ∃ database, (world.engine.onDestroy ⟨7, [], .silent⟩).2 = some database ∧
      ∃ entry ∈ BasicSimpleMappedView.writeImpl (fun _ => false) ⟨.new, database,
          Sharing.stableTraversals.indexes database.indexedContainer⟩,
        entry.info = ⟨64, 400, 3⟩ := by
  intro world
  obtain ⟨-, database, hdatabase, hlists, -⟩ := report_lists_live_blocks Impl.Usable.initial 0 1
    .kFlushLocalCacheWhen sampleCalls (by simp [sampleCalls, HookCall.Faithful,
      HookCall.FailedRealloc])
    (by refine ⟨?_, ?_, ?_, ?_, ?_, ?_, trivial⟩ <;> simp only [HookCall.Possible] <;> decide)
    ⟨7, [], .silent⟩ .new nofun Sharing.stableTraversals
  obtain ⟨entry, hentry, hshows⟩ := hlists.complete 64 ⟨400, 3, []⟩ (by decide) rfl
  exact ⟨database, hdatabase, entry, hentry, hshows.1⟩

end World

end Memhook
