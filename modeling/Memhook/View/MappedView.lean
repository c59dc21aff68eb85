import Memhook.Lib.Sieve
import Memhook.Storage.BasicMappedStorage

/-!
# The viewer

What `memview` does with a container that it has opened: the options of
`src/memview/mapped_view_options.h`, the flags and the filter loop of
`src/memview/mapped_view_base.cpp`, the symbol lookups of
`src/memview/basic_mapped_view.h`, and the loop over one index of
`src/memview/basic_simple_mapped_view.h` with the printer of
`src/memview/simple_printer.h`.

An option that measures from the start has a `mutable` member, so `call` returns the
option as the call leaves it.  The printer's output is the list of what it writes, one
entry for each record.  `View.Text` lays an entry out as text, and `View.Snapshots` has the
lock that `Write` takes on the container.
-/

namespace Memhook

/-! ## Flags -/

/-- `MappedView::OptionFlag`. -/
inductive OptionFlag
  | kNoLock
  | kShowCallStack
  | kSortByAddress
  | kSortByTime
  | kSortBySize
  deriving DecidableEq, Repr

def OptionFlag.mask : OptionFlag → UInt32
  | kNoLock => 0x0001
  | kShowCallStack => 0x0002
  | kSortByAddress => 0x0010
  | kSortByTime => 0x0020
  | kSortBySize => 0x0040

/-- The bits of which a view has at most one. -/
def sortmask : UInt32 := 0x00f0

/-! ## Options -/

/-- The subclasses of `MappedViewOption`.  The options that measure from now read the
clock when they are made. -/
inductive MappedViewOption
  | minSize (size : UInt64)
  | minTime (time : TimePoint)
  | maxTime (time : TimePoint)
  | minTimeFromNow (currentTime : TimePoint) (minDuration : Int64)
  | maxTimeFromNow (currentTime : TimePoint) (maxDuration : Int64)
  | minTimeFromStart (startTime : TimePoint) (minDuration : Int64)
  | maxTimeFromStart (startTime : TimePoint) (maxDuration : Int64)
  deriving DecidableEq, Repr

namespace MappedViewOption

/-- `m_start_time` after a record has been looked at; the epoch stands for a start that
is not known yet. -/
def startTimeAt (startTime : TimePoint) (tinfo : TraceInfoBase) : TimePoint :=
  if startTime = 0 then tinfo.timestamp else startTime

/-- `Call`: the answer, and the option afterwards. -/
def call (option : MappedViewOption) (tinfo : TraceInfoBase) : Bool × MappedViewOption :=
  match option with
  | minSize size => (tinfo.memsize ≥ size, option)
  | minTime time => (tinfo.timestamp ≥ time, option)
  | maxTime time => (tinfo.timestamp ≤ time, option)
  | minTimeFromNow currentTime minDuration =>
      (currentTime - tinfo.timestamp ≥ minDuration, option)
  | maxTimeFromNow currentTime maxDuration =>
      (currentTime - tinfo.timestamp ≤ maxDuration, option)
  | minTimeFromStart startTime minDuration =>
      let startTime := startTimeAt startTime tinfo
      (tinfo.timestamp - startTime ≥ minDuration, minTimeFromStart startTime minDuration)
  | maxTimeFromStart startTime maxDuration =>
      let startTime := startTimeAt startTime tinfo
      (tinfo.timestamp - startTime ≤ maxDuration, maxTimeFromStart startTime maxDuration)

/-- The constructors leave `m_start_time` at the epoch. -/
def Fresh : MappedViewOption → Prop
  | minTimeFromStart startTime _ | maxTimeFromStart startTime _ => startTime = 0
  | _ => True

instance : DecidablePred Fresh
  | minTimeFromStart _ _ | maxTimeFromStart _ _ => inferInstanceAs (Decidable (_ = _))
  | minSize _ | minTime _ | maxTime _ | minTimeFromNow _ _ | maxTimeFromNow _ _ =>
      inferInstanceAs (Decidable True)

end MappedViewOption

/-! ## The base of all views -/

structure MappedViewBase where
  options : List MappedViewOption
  flags : UInt32

namespace MappedViewBase

/-- The constructor. -/
def new : MappedViewBase := ⟨[], OptionFlag.kSortByTime.mask⟩

def getOptionFlag (view : MappedViewBase) (optionFlag : OptionFlag) : Bool :=
  view.flags &&& optionFlag.mask ≠ 0

def setOptionFlag (optionFlag : OptionFlag) (setval : Bool) (view : MappedViewBase) :
    MappedViewBase :=
  let flags :=
    if optionFlag.mask &&& sortmask ≠ 0 then view.flags &&& ~~~ sortmask else view.flags
  { view with
    flags := if setval then flags ||| optionFlag.mask else flags &&& ~~~ optionFlag.mask }

def setOption (option : MappedViewOption) (view : MappedViewBase) : MappedViewBase :=
  { view with options := view.options ++ [option] }

/-- The `find_if` of `CheckTraceInfoOptions`: the options behind the first that rejects
the record are not called. -/
def checkOptions : List MappedViewOption → TraceInfoBase → Bool × List MappedViewOption
  | [], _ => (true, [])
  | option :: rest, tinfo =>
      if (option.call tinfo).1 then
        ((checkOptions rest tinfo).1, (option.call tinfo).2 :: (checkOptions rest tinfo).2)
      else (false, (option.call tinfo).2 :: rest)

def checkTraceInfoOptions (view : MappedViewBase) (tinfo : TraceInfoBase) :
    Bool × MappedViewBase :=
  ((checkOptions view.options tinfo).1,
    { view with options := (checkOptions view.options tinfo).2 })

end MappedViewBase

/-! ## The indexes of a container -/

/-- The traversals of the address index and of the size index.  The storage keeps the
records in the order of the timestamp index; records of equal size may follow each other
in any order, since that depends on how they came to have this size. -/
structure Indexes (records : StoredRecords) where
  byAddress : List BasicTraceInfo
  bySize : List BasicTraceInfo
  byAddress_perm : byAddress.Perm records.items
  byAddress_sorted : byAddress.Pairwise fun x y => x.address ≤ y.address
  bySize_perm : bySize.Perm records.items
  bySize_sorted : bySize.Pairwise fun x y => x.memsize ≤ y.memsize

/-- `BasicMappedView`: the base and the opened container. -/
structure BasicMappedView where
  base : MappedViewBase
  container : BasicMappedStorage
  indexes : Indexes container.indexedContainer

namespace BasicMappedView

/-- The bytes of `"<unknown>"`. -/
def unknown : Bytes := [60, 117, 110, 107, 110, 111, 119, 110, 62]

def getModulePath (container : BasicMappedStorage) (addr : Address) : Bytes :=
  (container.shltab addr).getD unknown

def getProcName (container : BasicMappedStorage) (ip : Address) : Bytes :=
  (container.symtab ip).getD unknown

end BasicMappedView

/-! ## Printing -/

/-- A line of a call stack; the name is given as it is before demangling. -/
structure PrintedFrame where
  ip : Address
  sp : Address
  modulePath : Bytes
  procName : Bytes
  offp : Address
  deriving DecidableEq, Repr

/-- What is printed for one record. -/
structure Printed where
  info : TraceInfoBase
  callstack : List PrintedFrame
  deriving DecidableEq, Repr

namespace SimpleTraceInfoPrinter

/-- `operator()` on a frame. -/
def printFrame (container : BasicMappedStorage) (item : TraceInfoCallStackItem) : PrintedFrame :=
  ⟨item.ip, item.sp, BasicMappedView.getModulePath container item.shlAddr,
    BasicMappedView.getProcName container item.ip, item.offp⟩

/-- What is written for a record that passes. -/
def print (container : BasicMappedStorage) (showCallStack : Bool) (tinfo : BasicTraceInfo) :
    Printed :=
  ⟨tinfo.toTraceInfoBase,
    if showCallStack then tinfo.callstack.map (printFrame container) else []⟩

/-- `operator()` on a record: whether to go on, what is written, and the view
afterwards. -/
def call (container : BasicMappedStorage) (interrupted : Bool) (view : MappedViewBase)
    (tinfo : BasicTraceInfo) : Bool × List Printed × MappedViewBase :=
  if interrupted then (false, [], view)
  else
    let checked := view.checkTraceInfoOptions tinfo.toTraceInfoBase
    (true,
      if checked.1 then [print container (view.getOptionFlag .kShowCallStack) tinfo] else [],
      checked.2)

end SimpleTraceInfoPrinter

namespace BasicSimpleMappedView

/-- `ForEachDo`: `isInterrupted n` says whether the flag of the signal handler is set
when the printer comes to the `n`-th record. -/
def forEachDo (container : BasicMappedStorage) (isInterrupted : ℕ → Bool) :
    ℕ → List BasicTraceInfo → MappedViewBase → List Printed
  | _, [], _ => []
  | n, tinfo :: rest, view =>
      let printed := SimpleTraceInfoPrinter.call container (isInterrupted n) view tinfo
      if printed.1 then
        printed.2.1 ++ forEachDo container isInterrupted (n + 1) rest printed.2.2
      else printed.2.1

/-- The index `WriteImpl` chooses. -/
def index (view : BasicMappedView) : List BasicTraceInfo :=
  if view.base.getOptionFlag .kSortByAddress then view.indexes.byAddress
  else if view.base.getOptionFlag .kSortBySize then view.indexes.bySize
  else view.container.indexedContainer.items

def writeImpl (isInterrupted : ℕ → Bool) (view : BasicMappedView) : List Printed :=
  forEachDo view.container isInterrupted 0 (index view) view.base

end BasicSimpleMappedView

end Memhook
