import Mathlib.Algebra.Group.Nat.Defs
import Mathlib.Data.Int.Order.Basic
import Memhook.Lib.MultiIndex

/-!
# Trace information

The data of `include/memhook/callstack.h` and `include/memhook/traceinfo.h` on a
64-bit build: `uintptr_t` and `std::size_t` are `UInt64`, a time point of
`boost::chrono::system_clock` is its signed 64-bit count of nanoseconds, and a
`boost::container::string` is the list of its bytes.
-/

namespace Memhook

/-- `uintptr_t`; the address `0` is `NULL`. -/
abbrev Address := UInt64

/-- `chrono::system_clock::time_point`: nanoseconds since the epoch. -/
abbrev TimePoint := Int64

/-- `boost::container::string`. -/
abbrev Bytes := List UInt8

structure CallStackInfoItem where
  shlPath : Bytes
  procname : Bytes
  shlAddr : Address
  ip : Address
  sp : Address
  offp : Address
  deriving DecidableEq, Repr

abbrev CallStackInfo := List CallStackInfoItem

structure TraceInfoBase where
  address : Address
  memsize : UInt64
  timestamp : TimePoint
  deriving DecidableEq, Repr

structure TraceInfoCallStackItem where
  shlAddr : Address
  ip : Address
  sp : Address
  offp : Address
  deriving DecidableEq, Repr

/-- `BasicTraceInfo::Builder`: a stored frame keeps the numbers of a call stack
item; its strings go to the symbol tables. -/
def TraceInfoCallStackItem.build (item : CallStackInfoItem) : TraceInfoCallStackItem :=
  ⟨item.shlAddr, item.ip, item.sp, item.offp⟩

/-- `BasicTraceInfo`: a record as the storage keeps it. -/
structure BasicTraceInfo extends TraceInfoBase where
  callstack : List TraceInfoCallStackItem
  deriving DecidableEq, Repr

/-- The constructor of `BasicTraceInfo` from a resolved call stack. -/
def BasicTraceInfo.build (address : Address) (memsize : UInt64) (timestamp : TimePoint)
    (callstack : CallStackInfo) : BasicTraceInfo :=
  ⟨⟨address, memsize, timestamp⟩, callstack.map TraceInfoCallStackItem.build⟩

/-- `Engine::TraceInfo`: a record as the cache keeps it. -/
structure TraceInfo extends TraceInfoBase where
  callstack : CallStackInfo
  deriving DecidableEq, Repr

/-! ## The index keys

Both containers index `TraceInfoBase::address` and `TraceInfoBase::timestamp`;
the operations that rewrite a record in place leave these two alone. -/

def BasicTraceInfo.key (info : BasicTraceInfo) : Address := info.address

/-- The timestamp as the ordered index compares it. -/
def BasicTraceInfo.stamp (info : BasicTraceInfo) : ℤ := info.timestamp.toInt

def TraceInfo.key (info : TraceInfo) : Address := info.address

/-- The timestamp as the ordered index compares it. -/
def TraceInfo.stamp (info : TraceInfo) : ℤ := info.timestamp.toInt

def BasicTraceInfo.resize (memsize : UInt64) (info : BasicTraceInfo) : BasicTraceInfo :=
  { info with memsize := memsize }

def TraceInfo.resize (memsize : UInt64) (info : TraceInfo) : TraceInfo :=
  { info with memsize := memsize }

def TraceInfo.setCallstack (callstack : CallStackInfo) (info : TraceInfo) : TraceInfo :=
  { info with callstack := callstack }

@[simp] theorem BasicTraceInfo.key_resize (memsize : UInt64) (info : BasicTraceInfo) :
    (info.resize memsize).key = info.key := rfl

@[simp] theorem BasicTraceInfo.stamp_resize (memsize : UInt64) (info : BasicTraceInfo) :
    (info.resize memsize).stamp = info.stamp := rfl

@[simp] theorem TraceInfo.key_resize (memsize : UInt64) (info : TraceInfo) :
    (info.resize memsize).key = info.key := rfl

@[simp] theorem TraceInfo.stamp_resize (memsize : UInt64) (info : TraceInfo) :
    (info.resize memsize).stamp = info.stamp := rfl

@[simp] theorem TraceInfo.key_setCallstack (callstack : CallStackInfo) (info : TraceInfo) :
    (info.setCallstack callstack).key = info.key := rfl

@[simp] theorem TraceInfo.stamp_setCallstack (callstack : CallStackInfo) (info : TraceInfo) :
    (info.setCallstack callstack).stamp = info.stamp := rfl

/-! ## What both levels say about an address -/

/-- The part of a record that survives the move from cache to storage: its size,
the time of its announcement and the instruction pointers of its call stack. -/
structure Record where
  memsize : UInt64
  timestamp : TimePoint
  ips : List Address
  deriving DecidableEq, Repr

def TraceInfo.toRecord (info : TraceInfo) : Record :=
  ⟨info.memsize, info.timestamp, info.callstack.map CallStackInfoItem.ip⟩

def BasicTraceInfo.toRecord (info : BasicTraceInfo) : Record :=
  ⟨info.memsize, info.timestamp, info.callstack.map TraceInfoCallStackItem.ip⟩

/-- Changing the size is all that a same-address realloc does to a record. -/
def Record.resize (size : UInt64) (record : Record) : Record :=
  { record with memsize := size }

@[simp] theorem TraceInfo.toRecord_resize (memsize : UInt64) (info : TraceInfo) :
    (info.resize memsize).toRecord = info.toRecord.resize memsize := rfl

@[simp] theorem BasicTraceInfo.toRecord_resize (memsize : UInt64) (info : BasicTraceInfo) :
    (info.resize memsize).toRecord = info.toRecord.resize memsize := rfl

@[simp] theorem BasicTraceInfo.key_build (address : Address) (memsize : UInt64)
    (timestamp : TimePoint) (callstack : CallStackInfo) :
    (BasicTraceInfo.build address memsize timestamp callstack).key = address := rfl

@[simp] theorem BasicTraceInfo.toRecord_build (address : Address) (memsize : UInt64)
    (timestamp : TimePoint) (callstack : CallStackInfo) :
    (BasicTraceInfo.build address memsize timestamp callstack).toRecord =
      ⟨memsize, timestamp, callstack.map CallStackInfoItem.ip⟩ := by
  simp [BasicTraceInfo.build, BasicTraceInfo.toRecord, TraceInfoCallStackItem.build,
    Function.comp_def]

end Memhook
