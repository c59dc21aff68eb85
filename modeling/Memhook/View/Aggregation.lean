import Mathlib.Algebra.Group.Prod
import Mathlib.Data.UInt
import Memhook.Lib.GroupBy
import Memhook.View.Filters

/-!
# The aggregated view

`src/memview/aggregated_printer.h` counts the records of each call stack.  The container of
the counts finds a call stack by a hash of its instruction and stack pointers, and compares
these alone: modules and offsets are those of the first record that was met.

What `boost::hash_combine` computes does not matter, and it is a parameter here.  Call stacks
that compare equal have equal hashes, so a search by hash and comparison is one by the
sequence of pointers, and the builder records each size and a count of one under this
sequence: it is `GroupBy.record`, with amounts in two `std::size_t`.

The ordered indexes of the container are traversals of the same entries; entries of equal
size, or of equal count, may follow each other in any order.  The printer writes the frames of an
entry only if the view has the flag for call stacks.
-/

namespace Memhook

structure AggregatedTraceInfo where
  memsize : UInt64
  times : UInt64
  callstack : List TraceInfoCallStackItem
  deriving DecidableEq, Repr

/-- The instruction and stack pointers of a call stack. -/
def pointers (callstack : List TraceInfoCallStackItem) : List (Address × Address) :=
  callstack.map fun item => (item.ip, item.sp)

/-! ## Hash and comparison -/

section Hash

variable (hashCombine : UInt64 → UInt64 → UInt64)

/-- `TraceInfoCallstackItemHashByIpAndSp`. -/
def hashItemByIpAndSp (seed : UInt64) (item : TraceInfoCallStackItem) : UInt64 :=
  hashCombine (hashCombine seed item.ip) item.sp

/-- `CallstackContainerHashByIpAndSp`. -/
def hashByIpAndSp (callstack : List TraceInfoCallStackItem) : UInt64 :=
  callstack.foldl (hashItemByIpAndSp hashCombine) 0

/-- `TraceInfoCallstackItemEqualByIpAndSp`. -/
def equalItemByIpAndSp (lhs rhs : TraceInfoCallStackItem) : Bool :=
  lhs.ip == rhs.ip && lhs.sp == rhs.sp

/-- `CallstackContainerEqualByIpAndSp`. -/
def equalByIpAndSp (lhs rhs : List TraceInfoCallStackItem) : Bool :=
  if lhs.length ≠ rhs.length then false
  else (lhs.zip rhs).all fun pair => equalItemByIpAndSp pair.1 pair.2

/-- The entry is in the bucket of the call stack and compares equal. -/
def sameCallstack (callstack : List TraceInfoCallStackItem) (info : AggregatedTraceInfo) : Bool :=
  hashByIpAndSp hashCombine info.callstack == hashByIpAndSp hashCombine callstack &&
    equalByIpAndSp info.callstack callstack

theorem equalByIpAndSp_cons (item item' : TraceInfoCallStackItem)
    (lhs rhs : List TraceInfoCallStackItem) :
    equalByIpAndSp (item :: lhs) (item' :: rhs) =
      (equalItemByIpAndSp item item' && equalByIpAndSp lhs rhs) := by
  by_cases hlength : lhs.length = rhs.length <;> simp [equalByIpAndSp, hlength]

theorem equalByIpAndSp_iff (lhs rhs : List TraceInfoCallStackItem) :
    equalByIpAndSp lhs rhs ↔ pointers lhs = pointers rhs := by
  induction lhs generalizing rhs with
  | nil => cases rhs <;> simp [equalByIpAndSp, pointers]
  | cons item lhs ih =>
      cases rhs with
      | nil => simp [equalByIpAndSp, pointers]
      | cons item' rhs =>
          rw [equalByIpAndSp_cons, Bool.and_eq_true, ih]
          simp [equalItemByIpAndSp, pointers]

/-- The hash is one of the pointers. -/
theorem hashByIpAndSp_eq (callstack : List TraceInfoCallStackItem) :
    hashByIpAndSp hashCombine callstack =
      (pointers callstack).foldl (fun seed pair => hashCombine (hashCombine seed pair.1) pair.2)
        0 := by
  rw [pointers, List.foldl_map]
  rfl

/-- Call stacks that compare equal are in one bucket. -/
theorem sameCallstack_iff (callstack : List TraceInfoCallStackItem) (info : AggregatedTraceInfo) :
    sameCallstack hashCombine callstack info ↔ pointers info.callstack = pointers callstack := by
  rw [sameCallstack, Bool.and_eq_true, equalByIpAndSp_iff, beq_iff_eq, and_iff_right_iff_imp]
  intro hpointers
  rw [hashByIpAndSp_eq, hashByIpAndSp_eq, hpointers]

end Hash

/-! ## The builder -/

/-- `AggregatedIndexedContainer`, as the hashed index traverses it. -/
abbrev AggregatedIndexedContainer := List AggregatedTraceInfo

namespace AggregatedIndexedContainerBuilder

variable (hashCombine : UInt64 → UInt64 → UInt64)

/-- `AggregatedTraceInfoFieldsUpdater`. -/
def fieldsUpdater (memsize : UInt64) (info : AggregatedTraceInfo) : AggregatedTraceInfo :=
  { info with memsize := info.memsize + memsize, times := info.times + 1 }

/-- The record is counted. -/
def count (tinfo : BasicTraceInfo) (container : AggregatedIndexedContainer) :
    AggregatedIndexedContainer :=
  match container.find? (sameCallstack hashCombine tinfo.callstack) with
  | some _ =>
      container.map fun info =>
        if sameCallstack hashCombine tinfo.callstack info then fieldsUpdater tinfo.memsize info
        else info
  | none => container ++ [⟨tinfo.memsize, 1, tinfo.callstack⟩]

/-- `operator()`: whether to go on, the view afterwards, and the container. -/
def call (interrupted : Bool) (view : MappedViewBase) (container : AggregatedIndexedContainer)
    (tinfo : BasicTraceInfo) : Bool × MappedViewBase × AggregatedIndexedContainer :=
  if interrupted then (false, view, container)
  else
    let checked := view.checkTraceInfoOptions tinfo.toTraceInfoBase
    (true, checked.2, if checked.1 then count hashCombine tinfo container else container)

/-- The `find_if` over an index of the storage, which ends early only when it is
interrupted. -/
def build (isInterrupted : ℕ → Bool) :
    ℕ → List BasicTraceInfo → MappedViewBase → AggregatedIndexedContainer →
      Option AggregatedIndexedContainer
  | _, [], _, container => some container
  | n, tinfo :: rest, view, container =>
      let called := call hashCombine (isInterrupted n) view container tinfo
      if called.1 then build isInterrupted (n + 1) rest called.2.1 called.2.2 else none

end AggregatedIndexedContainerBuilder

/-- The traversals of the ordered indexes. -/
structure AggregatedIndexes (container : AggregatedIndexedContainer) where
  bySize : List AggregatedTraceInfo
  byTimes : List AggregatedTraceInfo
  bySize_perm : bySize.Perm container
  bySize_sorted : bySize.Pairwise fun x y => x.memsize ≤ y.memsize
  byTimes_perm : byTimes.Perm container
  byTimes_sorted : byTimes.Pairwise fun x y => x.times ≤ y.times

/-- What `AggregatedTraceInfoPrinter` prints of a group. -/
structure PrintedGroup where
  memsize : UInt64
  times : UInt64
  callstack : List PrintedFrame

/-- `AggregatedTraceInfoPrinter::operator()`, which prints a frame as the simple printer does. -/
def AggregatedTraceInfo.print (container : BasicMappedStorage) (showCallStack : Bool)
    (tinfo : AggregatedTraceInfo) : PrintedGroup where
  memsize := tinfo.memsize
  times := tinfo.times
  callstack :=
    if showCallStack then tinfo.callstack.map (SimpleTraceInfoPrinter.printFrame container) else []

namespace BasicAggregatedMappedView

/-- `ForEachDo_2`: the entries that are printed. -/
def forEachDo2 (isInterrupted : ℕ → Bool) :
    ℕ → List AggregatedTraceInfo → List AggregatedTraceInfo
  | _, [] => []
  | n, info :: rest =>
      if isInterrupted n then [] else info :: forEachDo2 isInterrupted (n + 1) rest

/-- `ForEachDo`; `isInterrupted n` says whether the flag of the signal handler is set when it
is asked for the `n`-th time. -/
def forEachDo (hashCombine : UInt64 → UInt64 → UInt64) (isInterrupted : ℕ → Bool)
    (indexes : (container : AggregatedIndexedContainer) → AggregatedIndexes container)
    (index : List BasicTraceInfo) (view : MappedViewBase) : List AggregatedTraceInfo :=
  match AggregatedIndexedContainerBuilder.build hashCombine isInterrupted 0 index view [] with
  | none => []
  | some container =>
      forEachDo2 isInterrupted index.length
        (if view.getOptionFlag .kSortBySize then (indexes container).bySize
        else (indexes container).byTimes)

/-- `WriteImpl`. -/
def writeImpl (hashCombine : UInt64 → UInt64 → UInt64) (isInterrupted : ℕ → Bool)
    (indexes : (container : AggregatedIndexedContainer) → AggregatedIndexes container)
    (container : BasicMappedStorage) (view : MappedViewBase) : List PrintedGroup :=
  (forEachDo hashCombine isInterrupted indexes container.indexedContainer.items view).map
    (AggregatedTraceInfo.print container (view.getOptionFlag .kShowCallStack))

end BasicAggregatedMappedView

/-! ## The builder groups -/

namespace AggregatedIndexedContainerBuilder

variable (hashCombine : UInt64 → UInt64 → UInt64)

/-- An entry afterwards was there with this call stack, or is the first one with its pointers. -/
theorem mem_count {tinfo : BasicTraceInfo} {container : AggregatedIndexedContainer}
    {info : AggregatedTraceInfo} (h : info ∈ count hashCombine tinfo container) :
    (∃ old ∈ container, old.callstack = info.callstack) ∨
      (info.callstack = tinfo.callstack ∧
        ∀ old ∈ container, pointers old.callstack ≠ pointers tinfo.callstack) := by
  unfold count at h
  split at h
  · left
    obtain ⟨old, hold, rfl⟩ := List.mem_map.mp h
    refine ⟨old, hold, ?_⟩
    split <;> rfl
  · next hfind =>
      rcases List.mem_append.mp h with hold | hnew
      · exact .inl ⟨info, hold, rfl⟩
      · right
        rw [List.mem_singleton.mp hnew]
        refine ⟨rfl, fun old hold hsame => ?_⟩
        exact List.find?_eq_none.mp hfind old hold ((sameCallstack_iff hashCombine _ _).mpr hsame)

/-- An entry as a group. -/
def group (info : AggregatedTraceInfo) : List (Address × Address) × (UInt64 × UInt64) :=
  (pointers info.callstack, (info.memsize, info.times))

/-- A record as an item. -/
def item (tinfo : BasicTraceInfo) : List (Address × Address) × (UInt64 × UInt64) :=
  (pointers tinfo.callstack, (tinfo.memsize, 1))

theorem map_group_count (tinfo : BasicTraceInfo) (container : AggregatedIndexedContainer) :
    (count hashCombine tinfo container).map group =
      GroupBy.record (container.map group) (item tinfo) := by
  have hkeys : (item tinfo).1 ∈ (container.map group).map Prod.fst ↔
      ∃ info ∈ container, pointers info.callstack = pointers tinfo.callstack := by
    simp [item, group]
  unfold count
  split
  next info hfind =>
    have hmem : (item tinfo).1 ∈ (container.map group).map Prod.fst :=
      hkeys.mpr ⟨info, List.mem_of_find?_eq_some hfind,
        (sameCallstack_iff hashCombine _ _).mp (List.find?_some hfind)⟩
    rw [GroupBy.record, if_pos hmem, List.map_map, List.map_map]
    refine List.map_congr_left ?_
    intro info _
    simp only [Function.comp_apply, sameCallstack_iff]
    by_cases hsame : pointers info.callstack = pointers tinfo.callstack
    · rw [if_pos hsame, if_pos (show (group info).1 = (item tinfo).1 from hsame)]
      rfl
    · rw [if_neg hsame, if_neg (show (group info).1 ≠ (item tinfo).1 from hsame)]
  next hfind =>
    have hmem : (item tinfo).1 ∉ (container.map group).map Prod.fst := by
      rw [hkeys]
      rintro ⟨info, hinfo, hsame⟩
      exact List.find?_eq_none.mp hfind info hinfo ((sameCallstack_iff hashCombine _ _).mpr hsame)
    rw [GroupBy.record, if_neg hmem, List.map_append]
    rfl

/-- Without interruption the builder counts the accepted records. -/
theorem build_eq {isInterrupted : ℕ → Bool} (hquiet : ∀ n, isInterrupted n = false) (n : ℕ)
    (index : List BasicTraceInfo) (view : MappedViewBase)
    (container : AggregatedIndexedContainer) :
    build hashCombine isInterrupted n index view container =
      some ((accepted view.options index).foldl (fun container tinfo =>
        count hashCombine tinfo container) container) := by
  induction index generalizing n view container with
  | nil => rfl
  | cons tinfo rest ih =>
      rw [build, call, hquiet n]
      simp only [Bool.false_eq_true, if_false, if_true]
      rw [ih]
      cases hcheck : (MappedViewBase.checkOptions view.options tinfo.toTraceInfoBase).1 with
      | true => simp [accepted, Sieve.sift, MappedViewBase.checkTraceInfoOptions, hcheck]
      | false => simp [accepted, Sieve.sift, MappedViewBase.checkTraceInfoOptions, hcheck]

theorem map_group_foldl_count (records : List BasicTraceInfo)
    (container : AggregatedIndexedContainer) :
    (records.foldl (fun container tinfo => count hashCombine tinfo container) container).map group =
      (records.map item).foldl GroupBy.record (container.map group) := by
  induction records generalizing container with
  | nil => rfl
  | cons tinfo rest ih => rw [List.foldl_cons, ih, map_group_count, List.map_cons, List.foldl_cons]

theorem groups_build (records : List BasicTraceInfo) :
    GroupBy.Groups (records.map item)
      ((records.foldl (fun container tinfo => count hashCombine tinfo container) []).map
        group) := by
  rw [map_group_foldl_count]
  exact GroupBy.groups_nil.foldl_record (records.map item)

end AggregatedIndexedContainerBuilder

/-! ## What the entries say -/

/-- The records with the pointers of an entry. -/
def AggregatedTraceInfo.records (info : AggregatedTraceInfo) (records : List BasicTraceInfo) :
    List BasicTraceInfo :=
  records.filter fun tinfo => pointers tinfo.callstack = pointers info.callstack

/-- The container has one entry for each sequence of pointers, with the number and the total
size of the records that have it; both are kept in 64 bits. -/
structure GroupsRecords (records : List BasicTraceInfo) (container : AggregatedIndexedContainer) :
    Prop where
  distinct : (container.map fun info => pointers info.callstack).Nodup
  sequences : ∀ sequence, (∃ info ∈ container, pointers info.callstack = sequence) ↔
    ∃ tinfo ∈ records, pointers tinfo.callstack = sequence
  memsize : ∀ info ∈ container, info.memsize.toNat =
    ((info.records records).map fun tinfo => tinfo.memsize.toNat).sum % 2 ^ 64
  times : ∀ info ∈ container, info.times.toNat = (info.records records).length % 2 ^ 64
  totalMemsize : (container.map fun info => info.memsize.toNat).sum % 2 ^ 64 =
    (records.map fun tinfo => tinfo.memsize.toNat).sum % 2 ^ 64
  totalTimes : (container.map fun info => info.times.toNat).sum % 2 ^ 64 =
    records.length % 2 ^ 64

open AggregatedIndexedContainerBuilder

/-- The amounts under a sequence of pointers, in two `std::size_t`. -/
theorem toNat_totalAt_item (sequence : List (Address × Address)) (records : List BasicTraceInfo) :
    (GroupBy.totalAt sequence (records.map item)).1.toNat =
        ((records.filter fun tinfo => pointers tinfo.callstack = sequence).map fun tinfo =>
          tinfo.memsize.toNat).sum % 2 ^ 64 ∧
      (GroupBy.totalAt sequence (records.map item)).2.toNat =
        (records.filter fun tinfo => pointers tinfo.callstack = sequence).length % 2 ^ 64 := by
  induction records with
  | nil => exact ⟨rfl, rfl⟩
  | cons tinfo records ih =>
      obtain ⟨hmemsize, htimes⟩ := ih
      rw [List.map_cons, GroupBy.totalAt_cons]
      by_cases hsame : pointers tinfo.callstack = sequence
      · rw [if_pos (show (item tinfo).1 = sequence from hsame),
          List.filter_cons_of_pos (by simpa using hsame)]
        constructor
        · rw [Prod.fst_add, UInt64.toNat_add, hmemsize, List.map_cons, List.sum_cons,
            Nat.add_mod_mod]
          rfl
        · rw [Prod.snd_add, UInt64.toNat_add, htimes, List.length_cons, Nat.add_mod_mod,
            Nat.add_comm]
          rfl
      · rw [if_neg (show (item tinfo).1 ≠ sequence from hsame), zero_add,
          List.filter_cons_of_neg (by simpa using hsame)]
        exact ⟨hmemsize, htimes⟩

/-- A sum over all records is one over the entries and the records of each. -/
theorem sum_records {records : List BasicTraceInfo} {container : AggregatedIndexedContainer}
    (hgroups : GroupBy.Groups (records.map item) (container.map group))
    (f : BasicTraceInfo → ℕ) :
    (container.map fun info => ((info.records records).map f).sum).sum = (records.map f).sum := by
  have htotal : ∀ info : AggregatedTraceInfo, ((info.records records).map f).sum =
      GroupBy.totalAt (pointers info.callstack)
        (records.map fun tinfo => (pointers tinfo.callstack, f tinfo)) := by
    intro info
    simp [GroupBy.totalAt, AggregatedTraceInfo.records, List.filter_map, Function.comp_def]
  have hkeys : ∀ counted ∈ records.map fun tinfo => (pointers tinfo.callstack, f tinfo),
      counted.1 ∈ (container.map group).map Prod.fst := by
    intro counted hcounted
    obtain ⟨tinfo, htinfo, rfl⟩ := List.mem_map.mp hcounted
    refine (hgroups.keys _).mpr ?_
    exact List.mem_map.mpr ⟨item tinfo, List.mem_map_of_mem htinfo, rfl⟩
  have hsum := GroupBy.sum_totalAt hgroups.nodup hkeys
  rw [List.map_map, List.map_map, List.map_map] at hsum
  simp only [htotal]
  exact hsum

theorem sum_length_records {records : List BasicTraceInfo} {container : AggregatedIndexedContainer}
    (hgroups : GroupBy.Groups (records.map item) (container.map group)) :
    (container.map fun info => (info.records records).length).sum = records.length := by
  have hsum := sum_records hgroups fun _ => 1
  simpa using hsum

theorem sum_mod_of_forall {α : Type*} {l : List α} {f g : α → ℕ} {modulus : ℕ}
    (h : ∀ x ∈ l, f x = g x % modulus) : (l.map f).sum % modulus = (l.map g).sum % modulus := by
  rw [List.map_congr_left h, List.sum_nat_mod (l.map g), List.map_map]
  rfl

theorem groupsRecords_of_groups {records : List BasicTraceInfo}
    {container : AggregatedIndexedContainer}
    (hgroups : GroupBy.Groups (records.map item) (container.map group)) :
    GroupsRecords records container := by
  have hamount : ∀ info ∈ container,
      (info.memsize, info.times) =
        GroupBy.totalAt (pointers info.callstack) (records.map item) := by
    intro info hinfo
    exact hgroups.amount (group info) (List.mem_map_of_mem hinfo)
  have hmemsize : ∀ info ∈ container, info.memsize.toNat =
      ((info.records records).map fun tinfo => tinfo.memsize.toNat).sum % 2 ^ 64 := by
    intro info hinfo
    rw [← show _ = info.memsize from congrArg Prod.fst (hamount info hinfo).symm]
    exact (toNat_totalAt_item _ records).1
  have htimes : ∀ info ∈ container,
      info.times.toNat = (info.records records).length % 2 ^ 64 := by
    intro info hinfo
    rw [← show _ = info.times from congrArg Prod.snd (hamount info hinfo).symm]
    exact (toNat_totalAt_item _ records).2
  refine ⟨?_, ?_, hmemsize, htimes, ?_, ?_⟩
  · have hnodup := hgroups.nodup
    rwa [List.map_map] at hnodup
  · intro sequence
    have hkeys := hgroups.keys sequence
    simpa [group, item] using hkeys
  · rw [sum_mod_of_forall hmemsize, sum_records hgroups]
  · rw [sum_mod_of_forall htimes, sum_length_records hgroups]

/-- The frames of an entry are those of the first of its records. -/
theorem callstack_foldl_count (hashCombine : UInt64 → UInt64 → UInt64)
    (records : List BasicTraceInfo) :
    ∀ info ∈ records.foldl (fun container tinfo => count hashCombine tinfo container) [],
      (info.records records).head?.map BasicTraceInfo.callstack = some info.callstack := by
  induction records using List.reverseRecOn with
  | nil => simp
  | append_singleton records tinfo ih =>
      intro info hinfo
      rw [List.foldl_append, List.foldl_cons, List.foldl_nil] at hinfo
      rw [AggregatedTraceInfo.records, List.filter_append, List.head?_append]
      rcases mem_count hashCombine hinfo with ⟨old, hold, hcallstack⟩ | ⟨hcallstack, hother⟩
      · -- the first record with these pointers is still the first one
        have hfirst := ih old hold
        rw [AggregatedTraceInfo.records, hcallstack] at hfirst
        obtain ⟨first, hhead, hframes⟩ := Option.map_eq_some_iff.mp hfirst
        rw [hhead, Option.some_or, Option.map_some, hframes]
      · have hnone : records.filter (fun record =>
            pointers record.callstack = pointers info.callstack) = [] := by
          rw [List.filter_eq_nil_iff]
          intro record hrecord hsame
          obtain ⟨old, hold, hpointers⟩ := ((groupsRecords_of_groups
            (groups_build hashCombine records)).sequences _).mpr ⟨record, hrecord, rfl⟩
          rw [decide_eq_true_eq] at hsame
          exact hother old hold (by rw [hpointers, hsame, hcallstack])
        rw [hnone, List.head?_nil, Option.none_or,
          List.filter_cons_of_pos (by simp [hcallstack]), List.head?_cons, Option.map_some,
          hcallstack]

theorem AggregatedTraceInfo.length_records_le (info : AggregatedTraceInfo)
    (records : List BasicTraceInfo) : (info.records records).length ≤ records.length :=
  List.length_filter_le _ _

/-- **Aggregation is a group-by.**  If it is not interrupted, the builder makes one entry for
each sequence of pointers among the records that the options accept, with their number and
their total size in 64 bits; the number is exact for fewer than `2 ^ 64` records.  The same
records in any other order give the same sequences with the same numbers and sizes. -/
theorem aggregation_groupBy (hashCombine : UInt64 → UInt64 → UInt64) {isInterrupted : ℕ → Bool}
    (hquiet : ∀ n, isInterrupted n = false) (view : MappedViewBase)
    (index : List BasicTraceInfo) :
    let records := accepted view.options index
    ∃ container, build hashCombine isInterrupted 0 index view [] = some container ∧
      GroupsRecords records container ∧
      (records.length < 2 ^ 64 →
        (∀ info ∈ container, info.times.toNat = (info.records records).length) ∧
          (container.map fun info => info.times.toNat).sum = records.length) ∧
      ∀ (view' : MappedViewBase) (index' : List BasicTraceInfo),
        (accepted view'.options index').Perm records →
        ∃ container', build hashCombine isInterrupted 0 index' view' [] = some container' ∧
          (container'.map group).Perm (container.map group) := by
  intro records
  have hgroups := groups_build hashCombine records
  have hgrouped := groupsRecords_of_groups hgroups
  refine ⟨_, build_eq hashCombine hquiet 0 index view [], hgrouped, ?_, ?_⟩
  · intro hlength
    have htimes : ∀ info ∈ records.foldl (fun container tinfo =>
        count hashCombine tinfo container) [],
        info.times.toNat = (info.records records).length := by
      intro info hinfo
      rw [hgrouped.times info hinfo, Nat.mod_eq_of_lt]
      exact Nat.lt_of_le_of_lt (info.length_records_le records) hlength
    refine ⟨htimes, ?_⟩
    rw [List.map_congr_left htimes, sum_length_records hgroups]
  · intro view' index' hperm
    refine ⟨_, build_eq hashCombine hquiet 0 index' view' [], ?_⟩
    exact (groups_build hashCombine _).perm hgroups (hperm.map item)

/-- A version of `boost::hash_combine`. -/
def sampleHashCombine (seed value : UInt64) : UInt64 :=
  seed ^^^ (value + 0x9e3779b9 + (seed <<< (6 : UInt64)) + (seed >>> (2 : UInt64)))

/-- Three records; the pointers of the first two are the same. -/
def sampleRecords : List BasicTraceInfo :=
  [⟨⟨16, 100, 1⟩, [⟨4096, 4100, 7, 4⟩]⟩, ⟨⟨32, 8, 2⟩, [⟨8192, 4100, 7, 0⟩]⟩, ⟨⟨48, 24, 3⟩, []⟩]

theorem aggregation_groupBy_sampleRecords :
    ∃ container, build sampleHashCombine (fun _ => false) 0 sampleRecords .new [] = some container ∧
      (container.map fun info => info.times.toNat).sum = 3 := by
  obtain ⟨container, hbuild, -, hexact, -⟩ :=
    aggregation_groupBy sampleHashCombine (fun _ => rfl) .new sampleRecords
  exact ⟨container, hbuild, (hexact (by decide)).2.trans (by decide)⟩

/-! ## What is printed -/

namespace BasicAggregatedMappedView

theorem forEachDo2_eq_self {isInterrupted : ℕ → Bool} (hquiet : ∀ n, isInterrupted n = false)
    (n : ℕ) (index : List AggregatedTraceInfo) : forEachDo2 isInterrupted n index = index := by
  induction index generalizing n with
  | nil => rfl
  | cons info rest ih =>
      rw [forEachDo2, hquiet n, ih]
      rfl

/-- All entries are printed, in the order of their sizes or of their numbers. -/
theorem forEachDo_spec (hashCombine : UInt64 → UInt64 → UInt64) {isInterrupted : ℕ → Bool}
    (hquiet : ∀ n, isInterrupted n = false)
    (indexes : (container : AggregatedIndexedContainer) → AggregatedIndexes container)
    (index : List BasicTraceInfo) (view : MappedViewBase) :
    let printed := forEachDo hashCombine isInterrupted indexes index view
    GroupBy.Groups ((accepted view.options index).map item) (printed.map group) ∧
      if view.getOptionFlag .kSortBySize then printed.Pairwise fun x y => x.memsize ≤ y.memsize
      else printed.Pairwise fun x y => x.times ≤ y.times := by
  intro printed
  have hgroups := groups_build hashCombine (accepted view.options index)
  simp only [printed, forEachDo, build_eq hashCombine hquiet, forEachDo2_eq_self hquiet]
  split
  · exact ⟨hgroups.of_perm ((indexes _).bySize_perm.map group), (indexes _).bySize_sorted⟩
  · exact ⟨hgroups.of_perm ((indexes _).byTimes_perm.map group), (indexes _).byTimes_sorted⟩

/-- Each entry is printed with the frames of the first of its records. -/
theorem callstack_of_mem_forEachDo {hashCombine : UInt64 → UInt64 → UInt64}
    {isInterrupted : ℕ → Bool} (hquiet : ∀ n, isInterrupted n = false)
    {indexes : (container : AggregatedIndexedContainer) → AggregatedIndexes container}
    {index : List BasicTraceInfo} {view : MappedViewBase} {info : AggregatedTraceInfo}
    (h : info ∈ forEachDo hashCombine isInterrupted indexes index view) :
    (info.records (accepted view.options index)).head?.map BasicTraceInfo.callstack =
      some info.callstack := by
  refine callstack_foldl_count hashCombine (accepted view.options index) info ?_
  simp only [forEachDo, build_eq hashCombine hquiet, forEachDo2_eq_self hquiet] at h
  split at h
  · exact (indexes _).bySize_perm.mem_iff.mp h
  · exact (indexes _).byTimes_perm.mem_iff.mp h

end BasicAggregatedMappedView

end Memhook
