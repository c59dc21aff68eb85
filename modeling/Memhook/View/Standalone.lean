import Memhook.Engine.Environment
import Memhook.View.CommandLine
import Memhook.View.Monitoring

/-!
# A program and its viewer

A program that is traced without a server, and `memview` beside it while it runs: the environment
of the program says where its storage is (`Memhook.Engine.Environment`), the command line of the
viewer where it looks (`Memhook.View.CommandLine`).  If these are the same place, for example
because nothing was said about it on either side, then the report is about this program.
-/

namespace Memhook

/-! ## Bounds on one record -/

section Within

variable (surroundings : Surroundings) (map : VariablesMap)

/-- The record is within the bounds of the command line that do not need a start. -/
def within (info : TraceInfoBase) : Bool :=
  (timeBound? surroundings map "max-time").all (info.timestamp ≤ ·) &&
    (durationBound? surroundings map "max-time-from-now").all
      (surroundings.now "max-time-from-now" - info.timestamp ≤ ·) &&
    (((map.find? "min-size").bind VariableValue.size?).all (info.memsize ≥ ·) &&
      (timeBound? surroundings map "min-time").all (info.timestamp ≥ ·) &&
      (durationBound? surroundings map "min-time-from-now").all
        (surroundings.now "min-time-from-now" - info.timestamp ≥ ·))

variable {surroundings map}

theorem keptFromStart_sublist (P : Int64 → Int64 → Bool) (bound : Option Int64)
    (records : List BasicTraceInfo) : (keptFromStart P bound records).Sublist records := by
  cases bound with
  | none => exact List.Sublist.refl _
  | some duration =>
      have hsublist := (List.filter_sublist (p := fun p : BasicTraceInfo × TimePoint =>
        P duration (p.1.timestamp - p.2)) (l := measured records)).map Prod.fst
      rwa [measured, Sieve.map_fst_mark] at hsublist

theorem select_sublist (records : List BasicTraceInfo) :
    (select surroundings map records).Sublist records := by
  unfold select
  exact (keptFromStart_sublist _ _ _).trans (List.filter_sublist.trans
    ((keptFromStart_sublist _ _ _).trans List.filter_sublist))

theorem within_of_mem_select {records : List BasicTraceInfo} {tinfo : BasicTraceInfo}
    (h : tinfo ∈ select surroundings map records) :
    within surroundings map tinfo.toTraceInfoBase := by
  unfold select at h
  have hlarge := (keptFromStart_sublist _ _ _).subset h
  obtain ⟨hearly, hlower⟩ := List.mem_filter.mp hlarge
  obtain ⟨-, hupper⟩ := List.mem_filter.mp ((keptFromStart_sublist _ _ _).subset hearly)
  exact Bool.and_eq_true_iff.mpr ⟨hupper, hlower⟩

/-- Without an option that measures from the start the bounds are all there is. -/
theorem mem_select {records : List BasicTraceInfo} {tinfo : BasicTraceInfo}
    (hmax : map.count "max-time-from-start" = false)
    (hmin : map.count "min-time-from-start" = false) (hmem : tinfo ∈ records)
    (hwithin : within surroundings map tinfo.toTraceInfoBase) :
    tinfo ∈ select surroundings map records := by
  have hbound : ∀ key, map.count key = false → durationBound? surroundings map key = none := by
    intro key hkey
    have hfind : map.find? key = none := by simpa [VariablesMap.count] using hkey
    simp [durationBound?, hfind]
  obtain ⟨hupper, hlower⟩ := Bool.and_eq_true_iff.mp hwithin
  simp only [select, hbound _ hmax, hbound _ hmin, keptFromStart]
  exact List.mem_filter.mpr ⟨List.mem_filter.mpr ⟨hmem, hupper⟩, hlower⟩

end Within

/-! ## One place -/

/-- Where a mapped storage is. -/
def StorageChoice.place? : StorageChoice → Option (Backend × Name)
  | mapped backend name _ => some (backend, name)
  | network _ _ => none

/-- What the viewer finds under a name is what the program has there. -/
def Surroundings.Finds (surroundings : Surroundings) (choice : StorageChoice)
    (container : BasicMappedStorage) : Prop :=
  ∀ backend name, choice.place? = some (backend, name) →
    surroundings.segments backend name = some container

section Printed

variable {surroundings : Surroundings} {map : VariablesMap} {view : BasicMappedView}
  {flag : OptionFlag}

theorem mem_indexBy_iff {tinfo : BasicTraceInfo} :
    tinfo ∈ view.indexBy flag ↔
      view.container.indexedContainer.find? tinfo.address = some tinfo := by
  rw [(view.indexBy_perm flag).mem_iff, MultiIndex.Container.find?_eq_some]
  exact (and_iff_left rfl).symm

theorem nodup_addresses_indexBy :
    ((view.indexBy flag).map fun tinfo => tinfo.address).Nodup :=
  ((view.indexBy_perm flag).map _).nodup_iff.mpr view.container.indexedContainer.keys_nodup

end Printed

namespace World

variable {U R : Type*} [CallStackUnwinder U R]

/-- The process as `OnInitialize` leaves it, if its storage could be made. -/
def started (chronoSecondsFromString : String → Option Int64) (env : Environment) (unwinder : U) :
    World U :=
  initial true unwinder (env.cacheFlushTimeout chronoSecondsFromString) env.cacheFlushMaxItems
    env.getprocinfoPolicy

/-- **The report is about the program.**  A program runs with its storage in memory or in a file,
and `memview` looks there at any moment.  Then the report has at most one entry for an address,
and every entry is within the bounds of the command line and about a block that exists before the
hook in progress or after it.  And unless the command line asks for times from the start, every
such block that exists before and after the hook, is within the bounds and was older than the
flush interval when the engine last read the clock is in the report. -/
theorem standalone_report (chronoSecondsFromString : String → Option Int64) (env : Environment)
    (unwinder : U) (hitems : env "MEMHOOK_CACHE_FLUSH_MAX_ITEMS" = none)
    {before : List (Context R × HookCall)} {current : Context R × HookCall}
    (hfaithful : ∀ call ∈ before ++ [current], call.2.Faithful)
    (hpossible : PossibleFrom (fun _ => none) (before ++ [current])) {seen : List StorageCall}
    (hbegun : (started chronoSecondsFromString env unwinder).storageCalls before <+: seen)
    (hseen : seen <+:
      (started chronoSecondsFromString env unwinder).storageCalls (before ++ [current]))
    {surroundings : Surroundings}
    (hfinds : surroundings.Finds env.newStorage
      (seen.foldl StorageCall.apply BasicMappedStorage.empty))
    {map : VariablesMap} (hplace : env.newStorage.place? = some (Memview.place map))
    (hsimple : map.count "aggregate" = false) {traversals : Traversals} {report : Report}
    (hmain : Memview.main surroundings traversals map = .written report) :
    let world := (started chronoSecondsFromString env unwinder).run before
    let records := Engine.runMap (engineOps before)
    let after := Engine.runMap (engineOps (before ++ [current]))
    (∀ address, world.blocks address = (records address).map Record.memsize ∧
        (world.call current).blocks address = (after address).map Record.memsize) ∧
      ∃ printed, report = .records printed ∧
        (printed.map fun entry => entry.info.address).Nodup ∧
        (∀ entry ∈ printed, within surroundings map entry.info ∧ ∃ record,
          (records entry.info.address = some record ∨ after entry.info.address = some record) ∧
            entry.Shows map.showsCallstack entry.info.address record) ∧
        (map.count "max-time-from-start" = false → map.count "min-time-from-start" = false →
          ∀ address record, records address = some record → after address = some record →
            (∃ time ∈ EngineOp.lastDeadline (env.cacheFlushTimeout chronoSecondsFromString)
              (engineOps before), record.timestamp.toInt < time.toInt) →
            within surroundings map ⟨address, record.memsize, record.timestamp⟩ →
            ∃ entry ∈ printed, entry.Shows map.showsCallstack address record) := by
  intro world records after
  have hstarted : started chronoSecondsFromString env unwinder = unlimited unwinder
      (env.cacheFlushTimeout chronoSecondsFromString) env.getprocinfoPolicy := by
    simp only [started, unlimited, Environment.cacheFlushMaxItems, hitems]
  rw [hstarted] at hbegun hseen
  have hshown := shown_while_running unwinder (env.cacheFlushTimeout chronoSecondsFromString)
    env.getprocinfoPolicy hfaithful hpossible hbegun hseen
  refine ⟨?_, ?_⟩
  · simp only [world, hstarted]
    exact blocks_while_running unwinder _ _ hfaithful hpossible
  obtain ⟨container, hopen, hreport⟩ := Memview.exists_of_main_eq_written surroundings hmain
  -- the viewer has opened the storage of the program
  obtain rfl : seen.foldl StorageCall.apply BasicMappedStorage.empty = container :=
    Option.some.inj ((hfinds _ _ hplace).symm.trans hopen)
  rw [MappedView.writeImpl, hsimple, if_neg (by simp), Memview.records_setEntries] at hreport
  refine ⟨_, hreport, ?_, ?_, ?_⟩
  · rw [List.map_map]
    exact nodup_addresses_indexBy.sublist ((select_sublist _).map _)
  · intro entry hentry
    obtain ⟨tinfo, htinfo, rfl⟩ := List.mem_map.mp hentry
    have hfind := mem_indexBy_iff.mp ((select_sublist _).subset htinfo)
    refine ⟨within_of_mem_select htinfo, tinfo.toRecord, ?_,
      SimpleTraceInfoPrinter.shows_print _ _ tinfo⟩
    exact (hshown _ _).1 (congrArg (Option.map BasicTraceInfo.toRecord) hfind)
  · intro hmax hmin address record hbefore hafter hdue hwithin
    obtain ⟨tinfo, hfind, rfl⟩ := Option.map_eq_some_iff.mp
      ((hshown address record).2 hbefore hafter hdue)
    obtain ⟨-, rfl⟩ := MultiIndex.Container.find?_eq_some.mp hfind
    exact ⟨_, List.mem_map_of_mem (mem_select hmax hmin (mem_indexBy_iff.mpr hfind) hwithin),
      SimpleTraceInfoPrinter.shows_print _ _ tinfo⟩

/-- Five seconds after the first block the second one is allocated. -/
def laterCalls : List (Context Resolver × HookCall) :=
  [(⟨1, [], .silent⟩, .malloc 100 16), (⟨5000000000, [], .silent⟩, .malloc 8 32)]

/-- What the storage of `laterCalls` then holds, under the name that nobody has set. -/
def laterSurroundings : Surroundings where
  chronoTimePointFromString _ := 0
  chronoDurationFromString _ := 0
  now _ := 0
  segments backend name :=
    if backend = .shm ∧ name = memhookSharedMemory then
      some ([StorageCall.add 16 100 [] 1, .flush].foldl StorageCall.apply .empty)
    else none

/-- Without any settings `memview` shows the block that is older than two seconds. -/
theorem standalone_report_laterCalls :
    ∃ printed, Memview.main laterSurroundings Sharing.stableTraversals ⟨[], List.Pairwise.nil⟩ =
        .written (.records printed) ∧
      ∃ entry ∈ printed, entry.info = ⟨16, 100, 1⟩ := by
  let env : Environment := fun _ => none
  let freed : Context Resolver × HookCall := (⟨5000000001, [], .silent⟩, .free 32)
  let world := started (fun _ => none) env Impl.Usable.initial
  have hfaithful : ∀ call ∈ laterCalls ++ [freed], call.2.Faithful := by
    simp [laterCalls, freed, HookCall.Faithful]
  have hpossible : PossibleFrom (fun _ => none) (laterCalls ++ [freed]) := by
    refine ⟨?_, ?_, ?_, trivial⟩ <;> simp only [HookCall.Possible] <;> decide
  have hbegun : world.storageCalls laterCalls <+: [.add 16 100 [] 1, .flush] := by decide
  have hseen : [.add 16 100 [] 1, .flush] <+: world.storageCalls (laterCalls ++ [freed]) := by
    decide
  have hfinds : laterSurroundings.Finds env.newStorage
      ([StorageCall.add 16 100 [] 1, .flush].foldl StorageCall.apply .empty) := by
    rintro backend name hplace
    obtain ⟨rfl, rfl⟩ := Prod.mk.inj (Option.some.inj hplace)
    rfl
  obtain ⟨report, hmain⟩ : ∃ report, Memview.main laterSurroundings Sharing.stableTraversals
      ⟨[], List.Pairwise.nil⟩ = .written report := ⟨_, rfl⟩
  obtain ⟨-, printed, rfl, -, -, hcomplete⟩ := standalone_report (fun _ => none) env
    Impl.Usable.initial rfl hfaithful hpossible hbegun hseen hfinds rfl rfl hmain
  obtain ⟨entry, hentry, hshows⟩ := hcomplete rfl rfl 16 ⟨100, 1, []⟩ (by decide) (by decide)
    ⟨3000000000, by decide, by decide⟩ rfl
  exact ⟨printed, hmain, entry, hentry, hshows.1⟩

end World

end Memhook
