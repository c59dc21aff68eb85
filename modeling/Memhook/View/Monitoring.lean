import Memhook.Engine.Lag
import Memhook.View.LiveBlocks

/-!
# A report about a running program

`memview` may look at the storage while the program still runs.  It then finds what the calls on
the storage up to some moment have left: a locking view waits until no call is under way
(`Memhook.View.Snapshots`), and a server has always made an initial part of the calls
(`Memhook.Wire.EndToEnd`).  The moment may lie in the middle of a hook, between the `Remove` and
the `Add` of a `realloc` for example.

What such a report says is true of the program before the hook or after it.  What it leaves out
is what the hook changes, and what the engine still keeps back; with the default limit of items
the latter is not older than the flush interval before the last allocation.
-/

namespace Memhook

namespace World

variable {U R : Type*} [CallStackUnwinder U R]

/-- What the hooks have called on the storage. -/
def storageCalls (world : World U) (calls : List (Context R × HookCall)) : List StorageCall :=
  world.engine.storageCalls (engineOps calls)

theorem engineOps_concat (calls : List (Context R × HookCall)) (call : Context R × HookCall) :
    engineOps (calls ++ [call]) = engineOps calls ++ [call.2.engineOp call.1] := by
  simp [engineOps]

variable (unwinder : U) (timeout : Int64) (policy : CallStackUnwindProcInfoPolicy)

/-- A process that was started with a storage and without `MEMHOOK_CACHE_FLUSH_MAX_ITEMS`. -/
def unlimited : World U := initial true unwinder timeout Engine.maxItems policy

theorem current_unlimited :
    Engine.Current timeout none (unlimited unwinder timeout policy).engine :=
  ⟨rfl, rfl, rfl, fun _ hinfo => absurd hinfo List.not_mem_nil,
    fun _ htime => absurd htime (by simp)⟩

variable {before : List (Context R × HookCall)} {current : Context R × HookCall}

theorem blocks_run (world : World U) (calls : List (Context R × HookCall)) :
    (world.run calls).blocks =
      calls.foldl (fun blocks call => call.2.blocksAfter blocks) world.blocks := by
  induction calls generalizing world with
  | nil => rfl
  | cons call rest ih => exact ih (world.call call)

/-- The map of the calls has the sizes of the blocks. -/
theorem blocks_unlimited {calls : List (Context R × HookCall)}
    (hfaithful : ∀ call ∈ calls, call.2.Faithful) (hpossible : PossibleFrom (fun _ => none) calls)
    (address : Address) :
    ((unlimited unwinder timeout policy).run calls).blocks address =
      (Engine.runMap (engineOps calls) address).map Record.memsize := by
  obtain ⟨-, hsizes⟩ := refines_run
    (refines_initial true unwinder timeout Engine.maxItems policy) rfl hfaithful hpossible
  exact (congrFun hsizes address).symm

section Running

variable (hfaithful : ∀ call ∈ before ++ [current], call.2.Faithful)
  (hpossible : PossibleFrom (fun _ => none) (before ++ [current]))

include hfaithful hpossible

/-- The process before the hook, and that the hook does what it may do. -/
theorem refines_before :
    ((unlimited unwinder timeout policy).run before).engine.Refines
        (Engine.runMap (engineOps before)) ∧
      (current.2.engineOp current.1).Admissible (Engine.runMap (engineOps before)) := by
  obtain ⟨hfirst, hlast⟩ := Run.along_append_iff.mp hpossible
  obtain ⟨hrefines, hsizes⟩ := refines_run
    (refines_initial true unwinder timeout Engine.maxItems policy) rfl
    (fun call hcall => hfaithful call (List.mem_append_left _ hcall)) hfirst
  refine ⟨hrefines, ?_⟩
  have hnow : current.2.Possible
      ((initial true unwinder timeout Engine.maxItems policy).run before).blocks := by
    rw [blocks_run]
    exact hlast.1
  exact (HookCall.step_sizes_faithful current.1
    (hfaithful current (List.mem_append_right _ (List.mem_singleton_self current))) hnow hsizes).1

/-- The maps of the calls have the sizes of the blocks, before the hook and after it. -/
theorem blocks_while_running (address : Address) :
    ((unlimited unwinder timeout policy).run before).blocks address =
        (Engine.runMap (engineOps before) address).map Record.memsize ∧
      (((unlimited unwinder timeout policy).run before).call current).blocks address =
        (Engine.runMap (engineOps (before ++ [current])) address).map Record.memsize := by
  have hrun : ((unlimited unwinder timeout policy).run before).call current =
      (unlimited unwinder timeout policy).run (before ++ [current]) := by
    simp [World.run]
  rw [hrun]
  exact ⟨blocks_unlimited unwinder timeout policy
    (fun call hcall => hfaithful call (List.mem_append_left _ hcall))
    (Run.along_append_iff.mp hpossible).1 address,
    blocks_unlimited unwinder timeout policy hfaithful hpossible address⟩

/-- What the storage shows in the middle of a hook. -/
theorem shown_while_running {seen : List StorageCall}
    (hbegun : (unlimited unwinder timeout policy).storageCalls before <+: seen)
    (hseen : seen <+: (unlimited unwinder timeout policy).storageCalls (before ++ [current]))
    (address : Address) (record : Record) :
    let shown := (seen.foldl StorageCall.apply BasicMappedStorage.empty).record? address
    let records := Engine.runMap (engineOps before)
    let after := Engine.runMap (engineOps (before ++ [current]))
    (shown = some record → records address = some record ∨ after address = some record) ∧
      (records address = some record → after address = some record →
        (∃ time ∈ EngineOp.lastDeadline timeout (engineOps before),
          record.timestamp.toInt < time.toInt) → shown = some record) := by
  intro shown records after
  obtain ⟨hrefines, hadmissible⟩ := refines_before unwinder timeout policy hfaithful hpossible
  have hempty : (unlimited unwinder timeout policy).engine.storage = some .empty := rfl
  have hcurrent := (current_unlimited unwinder timeout policy).run (engineOps before)
  rw [engine_run] at hrefines
  -- the calls of this hook that were made
  obtain ⟨part, rfl⟩ := hbegun
  have hpart : part <+: ((unlimited unwinder timeout policy).engine.run (engineOps before)).made
      (current.2.engineOp current.1) := by
    rw [storageCalls, storageCalls, engineOps_concat, Engine.storageCalls_concat hempty] at hseen
    exact (List.prefix_append_right_inj _).mp hseen
  have hstorage := Engine.storage_run hempty (engineOps before)
  have hshown : shown = (part.foldl StorageCall.apply
      (((unlimited unwinder timeout policy).engine.storageCalls (engineOps before)).foldl
        StorageCall.apply BasicMappedStorage.empty)).record? address :=
    congrArg (fun storage : BasicMappedStorage => storage.record? address) List.foldl_append
  have hafter : after = (current.2.engineOp current.1).applyMap records := by
    simp only [after, records, engineOps_concat, Engine.runMap, List.foldl_append]
    rfl
  obtain ⟨hsound, hcomplete⟩ :=
    Engine.between_made hrefines hstorage hadmissible hpart address record
  rw [hshown, hafter]
  refine ⟨hsound, ?_⟩
  rintro hbefore hstays ⟨time, htime, hdue⟩
  exact hcomplete hbefore hstays (hcurrent.upper_eq_none hrefines hbefore htime hdue)

/-- **A report about a running program.**  At any moment, also in the middle of a hook, let
`seen` be the calls on the storage so far.  Then the report has at most one entry for an address,
in the order of the flags, and every entry is about a block that exists before the hook or after
it, with its size, the time and the call stack of its allocation.  And every block that exists
before and after the hook is in the report if the options accept it and it was older than the
flush interval when the engine last read the clock. -/
theorem report_while_running {seen : List StorageCall}
    (hbegun : (unlimited unwinder timeout policy).storageCalls before <+: seen)
    (hseen : seen <+: (unlimited unwinder timeout policy).storageCalls (before ++ [current]))
    (base : MappedViewBase) (hplain : base.Plain) (traversals : Traversals) :
    let world := (unlimited unwinder timeout policy).run before
    let records := Engine.runMap (engineOps before)
    let after := Engine.runMap (engineOps (before ++ [current]))
    let container := seen.foldl StorageCall.apply BasicMappedStorage.empty
    let printed := BasicSimpleMappedView.writeImpl (fun _ => false)
      ⟨base, container, traversals.indexes container.indexedContainer⟩
    let showCallStack := base.getOptionFlag .kShowCallStack
    (∀ address, world.blocks address = (records address).map Record.memsize ∧
        (world.call current).blocks address = (after address).map Record.memsize) ∧
      (printed.map fun entry => entry.info.address).Nodup ∧
      printed.Pairwise (fun x y => base.InOrder x.info y.info) ∧
      (∀ entry ∈ printed, base.accepts entry.info ∧ ∃ record,
        (records entry.info.address = some record ∨ after entry.info.address = some record) ∧
          entry.Shows showCallStack entry.info.address record) ∧
      ∀ address record, records address = some record → after address = some record →
        (∃ time ∈ EngineOp.lastDeadline timeout (engineOps before),
          record.timestamp.toInt < time.toInt) →
        base.accepts ⟨address, record.memsize, record.timestamp⟩ →
        ∃ entry ∈ printed, entry.Shows showCallStack address record := by
  intro world records after container printed showCallStack
  have hlists : base.Lists container.record? printed :=
    BasicMappedView.lists_writeImpl
      ⟨base, container, traversals.indexes container.indexedContainer⟩ hplain fun _ => rfl
  have hshown := shown_while_running unwinder timeout policy hfaithful hpossible hbegun hseen
  refine ⟨blocks_while_running unwinder timeout policy hfaithful hpossible, hlists.distinct,
    hlists.inOrder, ?_, ?_⟩
  · intro entry hentry
    obtain ⟨haccepts, record, hrecord, hshows⟩ := hlists.sound entry hentry
    exact ⟨haccepts, record, (hshown _ record).1 hrecord, hshows⟩
  · intro address record hbefore hafter hdue haccepts
    exact hlists.complete address record ((hshown address record).2 hbefore hafter hdue) haccepts

end Running

/-- The second call finds that the first block is due. -/
def runningCalls : List (Context Resolver × HookCall) :=
  [(⟨1, [], .silent⟩, .malloc 100 16), (⟨5, [], .silent⟩, .malloc 8 32)]

/-- While the second block is moved, the first one is in the report. -/
theorem report_while_running_runningCalls :
    let container := [StorageCall.add 16 100 [] 1, .flush].foldl StorageCall.apply
      BasicMappedStorage.empty
    ∃ entry ∈ BasicSimpleMappedView.writeImpl (fun _ => false) ⟨.new, container,
        Sharing.stableTraversals.indexes container.indexedContainer⟩,
      entry.info = ⟨16, 100, 1⟩ := by
  intro container
  let moved : Context Resolver × HookCall := (⟨7, [], .silent⟩, .realloc 32 64 48)
  let world := unlimited Impl.Usable.initial 0 .kFlushLocalCacheWhen
  have hfaithful : ∀ call ∈ runningCalls ++ [moved], call.2.Faithful := by
    simp [runningCalls, moved, HookCall.Faithful, HookCall.FailedRealloc]
  have hpossible : PossibleFrom (fun _ => none) (runningCalls ++ [moved]) := by
    refine ⟨?_, ?_, ?_, trivial⟩ <;> simp only [HookCall.Possible] <;> decide
  have hbegun : world.storageCalls runningCalls <+: [.add 16 100 [] 1, .flush] := by decide
  have hseen : [.add 16 100 [] 1, .flush] <+: world.storageCalls (runningCalls ++ [moved]) := by
    decide
  have hreport := report_while_running Impl.Usable.initial 0 .kFlushLocalCacheWhen hfaithful
    hpossible hbegun hseen .new (by simp [MappedViewBase.Plain, MappedViewBase.new])
    Sharing.stableTraversals
  obtain ⟨entry, hentry, hshows⟩ := hreport.2.2.2.2 16 ⟨100, 1, []⟩ (by decide) (by decide)
    ⟨5, by decide, by decide⟩ rfl
  exact ⟨entry, hentry, hshows.1⟩

end World

end Memhook
