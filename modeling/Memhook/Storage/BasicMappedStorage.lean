import Memhook.TraceInfo

/-!
# The storage interface and its memory-mapped implementation

`MappedStorage` is the interface of `include/memhook/mapped_storage.h`, and
`BasicMappedStorage` the container that `src/memhookcore/basic_mapped_storage.h`
keeps in its segment: the records, found by address and traversed by timestamp,
and the two symbol tables that `SymbolTableUpdater` fills.  The segment is taken
to be large enough, so `add` always succeeds.

The names of the segments are the subject of `Storage.Creator`, and the signal scopes around
each operation that of `Storage.SignalLock`.  The mutex scopes are left out: an operation is
one step.
-/

namespace Memhook

open MultiIndex

/-- `MappedStorage`: what the engine and the server use of a storage. -/
class MappedStorage (S : Type*) where
  add : S → Address → UInt64 → CallStackInfo → TimePoint → S
  remove : S → Address → S × Bool
  updateSize : S → Address → UInt64 → S × Bool
  clear : S → S
  flush : S → S

/-- A call on a storage. -/
inductive StorageCall
  | add (address : Address) (memsize : UInt64) (callstack : CallStackInfo) (timestamp : TimePoint)
  | remove (address : Address)
  | updateSize (address : Address) (memsize : UInt64)
  | clear
  | flush
  deriving DecidableEq

namespace StorageCall

def apply {S : Type} [MappedStorage S] (storage : S) : StorageCall → S
  | add address memsize callstack timestamp =>
      MappedStorage.add storage address memsize callstack timestamp
  | remove address => (MappedStorage.remove storage address).1
  | updateSize address memsize => (MappedStorage.updateSize storage address memsize).1
  | clear => MappedStorage.clear storage
  | flush => MappedStorage.flush storage

end StorageCall

/-- `MappedContainerBase::SymbolTable`, a hash map that is only ever searched. -/
abbrev SymbolTable := Address → Option Bytes

/-- `boost::unordered_map::emplace`: an existing entry stays. -/
def SymbolTable.emplace (table : SymbolTable) (key : Address) (name : Bytes) : SymbolTable :=
  fun other => if other = key then (table key).or (some name) else table other

theorem SymbolTable.isSome_emplace (table : SymbolTable) (key other : Address) (name : Bytes) :
    (table.emplace key name other).isSome ↔ other = key ∨ (table other).isSome := by
  unfold SymbolTable.emplace
  split
  · next heq =>
      subst heq
      simp
  · next hne => simp [hne]

/-- `MappedContainer::IndexedContainer`. -/
abbrev StoredRecords := Container BasicTraceInfo.key BasicTraceInfo.stamp

structure BasicMappedStorage where
  indexedContainer : StoredRecords
  symtab : SymbolTable
  shltab : SymbolTable

namespace BasicMappedStorage

/-- A container as the constructor leaves it in a fresh segment. -/
def empty : BasicMappedStorage := ⟨Container.empty, fun _ => none, fun _ => none⟩

/-- `SymbolTableUpdater::operator()`: the module of a frame is entered only
together with a new symbol. -/
def symbolTableUpdater (storage : BasicMappedStorage) (item : CallStackInfoItem) :
    BasicMappedStorage :=
  if storage.symtab item.ip = none then
    { storage with
      symtab := storage.symtab.emplace item.ip item.procname
      shltab :=
        if storage.shltab item.shlAddr = none then
          storage.shltab.emplace item.shlAddr item.shlPath
        else storage.shltab }
  else storage

def add (storage : BasicMappedStorage) (address : Address) (memsize : UInt64)
    (callstack : CallStackInfo) (timestamp : TimePoint) : BasicMappedStorage :=
  let updated := callstack.foldl symbolTableUpdater storage
  { updated with
    indexedContainer := (updated.indexedContainer.emplace
      (BasicTraceInfo.build address memsize timestamp callstack)).1 }

def remove (storage : BasicMappedStorage) (address : Address) : BasicMappedStorage × Bool :=
  match storage.indexedContainer.find? address with
  | none => (storage, false)
  | some _ => ({ storage with indexedContainer := storage.indexedContainer.erase address }, true)

def updateSize (storage : BasicMappedStorage) (address : Address) (memsize : UInt64) :
    BasicMappedStorage × Bool :=
  match storage.indexedContainer.find? address with
  | none => (storage, false)
  | some _ =>
      ({ storage with
        indexedContainer := storage.indexedContainer.modify address
          (BasicTraceInfo.resize memsize) (BasicTraceInfo.key_resize memsize)
          (BasicTraceInfo.stamp_resize memsize) }, true)

/-- The symbol tables survive a `Clear`. -/
def clear (storage : BasicMappedStorage) : BasicMappedStorage :=
  { storage with indexedContainer := Container.empty }

instance : MappedStorage BasicMappedStorage where
  add := add
  remove := remove
  updateSize := updateSize
  clear := clear
  flush storage := storage

/-! ## The record under an address -/

/-- What the database says about an address. -/
def record? (storage : BasicMappedStorage) (address : Address) : Option Record :=
  (storage.indexedContainer.find? address).map BasicTraceInfo.toRecord

@[simp] theorem record?_empty (address : Address) : empty.record? address = none := rfl

theorem indexedContainer_symbolTableUpdater (storage : BasicMappedStorage)
    (item : CallStackInfoItem) :
    (storage.symbolTableUpdater item).indexedContainer = storage.indexedContainer := by
  unfold symbolTableUpdater
  split <;> rfl

/-- Filling the symbol tables touches no record. -/
@[simp] theorem indexedContainer_foldl_symbolTableUpdater (callstack : CallStackInfo)
    (storage : BasicMappedStorage) :
    (callstack.foldl symbolTableUpdater storage).indexedContainer = storage.indexedContainer := by
  induction callstack generalizing storage with
  | nil => rfl
  | cons item rest ih =>
      rw [List.foldl_cons, ih, indexedContainer_symbolTableUpdater]

/-- `Add` keeps a record that is already there. -/
theorem record?_add (storage : BasicMappedStorage) (address : Address) (memsize : UInt64)
    (callstack : CallStackInfo) (timestamp : TimePoint) (other : Address) :
    (storage.add address memsize callstack timestamp).record? other =
      (storage.record? other).or (if address = other then
        some ⟨memsize, timestamp, callstack.map CallStackInfoItem.ip⟩ else none) := by
  simp only [record?, add, indexedContainer_foldl_symbolTableUpdater, Container.find?_emplace]
  cases storage.indexedContainer.find? other with
  | some info => rfl
  | none =>
      by_cases heq : address = other <;> simp [heq]

theorem record?_remove (storage : BasicMappedStorage) (address other : Address) :
    (storage.remove address).1.record? other =
      if other = address then none else storage.record? other := by
  unfold remove
  split
  next hfind =>
    split
    next heq => simp [record?, heq, hfind]
    next => rfl
  next =>
    simp only [record?, Container.find?_erase]
    split <;> simp

theorem record?_updateSize (storage : BasicMappedStorage) (address : Address) (memsize : UInt64)
    (other : Address) :
    (storage.updateSize address memsize).1.record? other =
      if other = address then (storage.record? other).map (Record.resize memsize)
      else storage.record? other := by
  unfold updateSize
  split
  next hfind =>
    split
    next heq => simp [record?, heq, hfind]
    next => rfl
  next =>
    simp only [record?, Container.find?_modify]
    split
    next =>
      simp only [Option.map_map]
      rfl
    next => rfl

end BasicMappedStorage

end Memhook
