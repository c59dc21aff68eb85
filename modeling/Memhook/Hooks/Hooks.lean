import Memhook.Engine.Refinement

/-!
# The hooks

The functions of `src/memhook/memhook.cpp` that stand in for the allocation
functions of libc.  Each hook is given what the underlying call returned and does
with it what the source does: nothing inside another hook, and otherwise one call
on the engine.

`HookCall` is a call of a hook together with the outcome of its underlying call.
`HookCall.Possible` and `HookCall.blocksAfter` say what libc and the kernel may do:
which outcomes a call can have, and which blocks exist afterwards.  A block is
known by its start address and its current size; the address space behind it is
visible only through the ranges that `munmap`, `MAP_FIXED` and `mremap` take away.
-/

namespace Memhook

/-- `MAP_FAILED`, that is `(void *)-1`. -/
def MAP_FAILED : Address := 0xffffffffffffffff

def MAP_PRIVATE : UInt32 := 0x02
def MAP_FIXED : UInt32 := 0x10
def MAP_ANONYMOUS : UInt32 := 0x20
def MAP_STACK : UInt32 := 0x20000
def MREMAP_FIXED : UInt32 := 2

/-- `NoHook::IsNested`. -/
def isNested (hookDepth : ℤ) : Bool := hookDepth ≠ 0

@[simp] theorem isNested_zero : isNested 0 = false := rfl

section Hooks

variable {U R S : Type*} [CallStackUnwinder U R] [MappedStorage S]
  (hookDepth : ℤ) (ctx : Context R)

/-! ## Allocating -/

/-- The hooks that announce whatever pointer they return. -/
def allocHook (mem : Address) (size : UInt64) (engine : Engine U S) : Engine U S :=
  if isNested hookDepth then engine else engine.doHookAlloc ctx mem size

def memhookMalloc (size : UInt64) (mem : Address) : Engine U S → Engine U S :=
  allocHook hookDepth ctx mem size

/-- The recorded size is the product as `size_t` computes it. -/
def memhookCalloc (nmemb size : UInt64) (mem : Address) : Engine U S → Engine U S :=
  allocHook hookDepth ctx mem (nmemb * size)

def memhookMemalign (size : UInt64) (mem : Address) : Engine U S → Engine U S :=
  allocHook hookDepth ctx mem size

def memhookAlignedAlloc (size : UInt64) (mem : Address) : Engine U S → Engine U S :=
  allocHook hookDepth ctx mem size

def memhookValloc (size : UInt64) (mem : Address) : Engine U S → Engine U S :=
  allocHook hookDepth ctx mem size

def memhookPvalloc (size : UInt64) (mem : Address) : Engine U S → Engine U S :=
  allocHook hookDepth ctx mem size

/-- `do_cpp_alloc`, the body of every `operator new`.  When `do_cpp_alloc2` throws,
nothing is announced, as for a null pointer. -/
def doCppAlloc (size : UInt64) (mem : Address) : Engine U S → Engine U S :=
  allocHook hookDepth ctx mem size

/-- `*memptr` is announced whatever code the underlying call returned. -/
def memhookPosixMemalign (size : UInt64) (_rs : ℤ) (memptr : Address) : Engine U S → Engine U S :=
  allocHook hookDepth ctx memptr size

/-- The test of `memhook_mmap`. -/
def mmapRecords (flags : UInt32) (fd : ℤ) : Bool := fd < 0 ∧ flags &&& MAP_STACK = 0

/-- The test of `memhook_mmap64`. -/
def mmap64Records (flags : UInt32) (fd : ℤ) : Bool :=
  fd < 0 ∧ flags &&& (MAP_ANONYMOUS ||| MAP_PRIVATE) = MAP_ANONYMOUS ||| MAP_PRIVATE

/-- What the source does with the result of `mmap` and of `mmap64`; only the tests
differ. -/
def mmapHook (records : Bool) (length : UInt64) (mem : Address) (engine : Engine U S) :
    Engine U S :=
  if isNested hookDepth then engine
  else if records then engine.doHookAlloc ctx mem length
  else engine

def memhookMmap (length : UInt64) (flags : UInt32) (fd : ℤ) (mem : Address) :
    Engine U S → Engine U S :=
  mmapHook hookDepth ctx (mmapRecords flags fd) length mem

def memhookMmap64 (length : UInt64) (flags : UInt32) (fd : ℤ) (mem : Address) :
    Engine U S → Engine U S :=
  mmapHook hookDepth ctx (mmap64Records flags fd) length mem

/-! ## Moving -/

def memhookRealloc (oldMem : Address) (size : UInt64) (newMem : Address)
    (engine : Engine U S) : Engine U S :=
  if isNested hookDepth then engine else engine.doHookRealloc ctx oldMem newMem size

/-- Unlike `memhook_realloc`, `memhook_mremap` asks first whether the call failed. -/
def memhookMremap (addr : Address) (newLen : UInt64) (newAddr : Address)
    (engine : Engine U S) : Engine U S :=
  if isNested hookDepth then engine
  else if newAddr ≠ MAP_FAILED then engine.doHookRealloc ctx addr newAddr newLen
  else engine

/-! ## Releasing -/

/-- The hooks that remove the record before they release the block. -/
def freeHook (mem : Address) (engine : Engine U S) : Engine U S :=
  if isNested hookDepth then engine else engine.doHookFree mem

def memhookFree (mem : Address) : Engine U S → Engine U S := freeHook hookDepth mem

def memhookCfree (mem : Address) : Engine U S → Engine U S := freeHook hookDepth mem

/-- `do_cpp_free`, the body of every `operator delete`. -/
def doCppFree (mem : Address) : Engine U S → Engine U S := freeHook hookDepth mem

def memhookMunmap (addr : Address) (rs : ℤ) (engine : Engine U S) : Engine U S :=
  if isNested hookDepth then engine
  else if rs = 0 then engine.doHookFree addr
  else engine

end Hooks

/-! ## Calls and their outcomes -/

/-- A call of a hook and what its underlying call returned. -/
inductive HookCall
  | malloc (size : UInt64) (mem : Address)
  | calloc (nmemb size : UInt64) (mem : Address)
  | memalign (size : UInt64) (mem : Address)
  | alignedAlloc (size : UInt64) (mem : Address)
  | valloc (size : UInt64) (mem : Address)
  | pvalloc (size : UInt64) (mem : Address)
  | cppNew (size : UInt64) (mem : Address)
  | posixMemalign (size : UInt64) (rs : ℤ) (memptr : Address)
  | mmap (addr : Address) (length : UInt64) (flags : UInt32) (fd : ℤ) (mem : Address)
  | mmap64 (addr : Address) (length : UInt64) (flags : UInt32) (fd : ℤ) (mem : Address)
  | realloc (oldMem : Address) (size : UInt64) (newMem : Address)
  | mremap (addr : Address) (oldLen newLen : UInt64) (flags : UInt32) (newAddr : Address)
  | free (mem : Address)
  | cfree (mem : Address)
  | cppDelete (mem : Address)
  | munmap (addr : Address) (length : UInt64) (rs : ℤ)

/-- The blocks that exist: their sizes, by start address. -/
abbrev Blocks := Address → Option UInt64

/-- The addresses of `length` bytes from `addr` on. -/
def InRange (addr : Address) (length : UInt64) (address : Address) : Prop :=
  addr.toNat ≤ address.toNat ∧ address.toNat < addr.toNat + length.toNat

instance (addr : Address) (length : UInt64) (address : Address) :
    Decidable (InRange addr length address) := inferInstanceAs (Decidable (_ ∧ _))

theorem inRange_self {addr : Address} {length : UInt64} (hlength : length ≠ 0) :
    InRange addr length addr := by
  have hpos : length.toNat ≠ 0 := fun h => hlength (UInt64.toNat_inj.mp h)
  exact ⟨Nat.le_refl _, by omega⟩

/-- The addresses a successful `mmap` takes from earlier mappings. -/
def MmapReplaces (addr : Address) (length : UInt64) (flags : UInt32) (address : Address) : Prop :=
  flags &&& MAP_FIXED ≠ 0 ∧ InRange addr length address

/-- The addresses a successful `mremap` gives up or takes from other mappings: the
cut-off tail of a mapping that stays in place; otherwise the whole old range and,
under `MREMAP_FIXED`, the new one. -/
def MremapReplaces (addr : Address) (oldLen newLen : UInt64) (flags : UInt32) (newAddr : Address)
    (address : Address) : Prop :=
  if newAddr = addr then
    addr.toNat + newLen.toNat ≤ address.toNat ∧ address.toNat < addr.toNat + oldLen.toNat
  else
    InRange addr oldLen address ∨ flags &&& MREMAP_FIXED ≠ 0 ∧ InRange newAddr newLen address

instance (addr : Address) (length : UInt64) (flags : UInt32) (address : Address) :
    Decidable (MmapReplaces addr length flags address) := inferInstanceAs (Decidable (_ ∧ _))

instance (addr : Address) (oldLen newLen : UInt64) (flags : UInt32) (newAddr address : Address) :
    Decidable (MremapReplaces addr oldLen newLen flags newAddr address) :=
  inferInstanceAs (Decidable (ite _ _ _))

namespace Blocks

/-- A returned pointer is a new block, unless it is `NULL`. -/
def allocated (mem : Address) (size : UInt64) (blocks : Blocks) : Blocks :=
  if mem = 0 then blocks else Function.update blocks mem (some size)

def released (mem : Address) (blocks : Blocks) : Blocks :=
  if mem = 0 then blocks else Function.update blocks mem none

/-- A mapping of `length` bytes at `mem`, after `replaced` has been taken away. -/
def mapped (replaced : Address → Prop) [DecidablePred replaced] (mem : Address) (length : UInt64)
    (blocks : Blocks) : Blocks :=
  fun address =>
    if address = mem then some length else if replaced address then none else blocks address

end Blocks

namespace HookCall

/-- The outcomes libc and the kernel can produce.  A block is handed out where there
is none, and a pointer is released or moved only by its owner. -/
def Possible (blocks : Blocks) : HookCall → Prop
  | malloc _ mem | memalign _ mem | alignedAlloc _ mem | valloc _ mem | pvalloc _ mem
  | cppNew _ mem => mem ≠ 0 → blocks mem = none
  -- libc refuses a product that overflows
  | calloc nmemb size mem =>
      mem ≠ 0 → blocks mem = none ∧ nmemb.toNat * size.toNat < 2 ^ 64
  | posixMemalign _ rs memptr => rs = 0 → memptr ≠ 0 → blocks memptr = none
  | mmap addr length flags _ mem | mmap64 addr length flags _ mem =>
      mem ≠ MAP_FAILED → length ≠ 0 ∧
        if flags &&& MAP_FIXED ≠ 0 then mem = addr else blocks mem = none
  | realloc oldMem _ newMem =>
      (oldMem = 0 ∨ (blocks oldMem).isSome) ∧
        (newMem ≠ 0 → newMem = oldMem ∨ blocks newMem = none)
  | mremap addr _ newLen flags newAddr =>
      newAddr ≠ MAP_FAILED → newLen ≠ 0 ∧
        (newAddr = addr ∨ flags &&& MREMAP_FIXED ≠ 0 ∨ blocks newAddr = none)
  | free mem | cfree mem | cppDelete mem => mem = 0 ∨ (blocks mem).isSome
  | munmap _ _ _ => True

/-- The blocks after the call.  A `realloc` that returns `NULL` has released the old
block if the requested size was zero, and has left it alone otherwise. -/
def blocksAfter (blocks : Blocks) : HookCall → Blocks
  | malloc size mem | memalign size mem | alignedAlloc size mem | valloc size mem
  | pvalloc size mem | cppNew size mem => blocks.allocated mem size
  | calloc nmemb size mem => blocks.allocated mem (nmemb * size)
  | posixMemalign size rs memptr => if rs = 0 then blocks.allocated memptr size else blocks
  | mmap addr length flags _ mem | mmap64 addr length flags _ mem =>
      if mem = MAP_FAILED then blocks
      else blocks.mapped (MmapReplaces addr length flags) mem length
  | realloc oldMem size newMem =>
      if newMem ≠ 0 then (blocks.released oldMem).allocated newMem size
      else if size = 0 then blocks.released oldMem
      else blocks
  | mremap addr oldLen newLen flags newAddr =>
      if newAddr = MAP_FAILED then blocks
      else blocks.mapped (MremapReplaces addr oldLen newLen flags newAddr) newAddr newLen
  | free mem | cfree mem | cppDelete mem => blocks.released mem
  | munmap addr length rs =>
      if rs = 0 then fun address => if InRange addr length address then none else blocks address
      else blocks

variable {U R S : Type*} [CallStackUnwinder U R] [MappedStorage S]

/-- The hook itself, at hook depth zero. -/
def hook (ctx : Context R) : HookCall → Engine U S → Engine U S
  | malloc size mem => memhookMalloc 0 ctx size mem
  | calloc nmemb size mem => memhookCalloc 0 ctx nmemb size mem
  | memalign size mem => memhookMemalign 0 ctx size mem
  | alignedAlloc size mem => memhookAlignedAlloc 0 ctx size mem
  | valloc size mem => memhookValloc 0 ctx size mem
  | pvalloc size mem => memhookPvalloc 0 ctx size mem
  | cppNew size mem => doCppAlloc 0 ctx size mem
  | posixMemalign size rs memptr => memhookPosixMemalign 0 ctx size rs memptr
  | mmap _ length flags fd mem => memhookMmap 0 ctx length flags fd mem
  | mmap64 _ length flags fd mem => memhookMmap64 0 ctx length flags fd mem
  | realloc oldMem size newMem => memhookRealloc 0 ctx oldMem size newMem
  | mremap addr _ newLen _ newAddr => memhookMremap 0 ctx addr newLen newAddr
  | free mem => memhookFree 0 mem
  | cfree mem => memhookCfree 0 mem
  | cppDelete mem => doCppFree 0 mem
  | munmap addr _ rs => memhookMunmap 0 addr rs

/-- The engine operation a hook at depth zero amounts to. -/
def engineOp (ctx : Context R) : HookCall → EngineOp R
  | malloc size mem | memalign size mem | alignedAlloc size mem | valloc size mem
  | pvalloc size mem | cppNew size mem => .alloc ctx mem size
  | calloc nmemb size mem => .alloc ctx mem (nmemb * size)
  | posixMemalign size _ memptr => .alloc ctx memptr size
  | mmap _ length flags fd mem => .alloc ctx (if mmapRecords flags fd then mem else 0) length
  | mmap64 _ length flags fd mem => .alloc ctx (if mmap64Records flags fd then mem else 0) length
  | realloc oldMem size newMem => .realloc ctx oldMem newMem size
  | mremap addr _ newLen _ newAddr =>
      if newAddr ≠ MAP_FAILED then .realloc ctx addr newAddr newLen else .free 0
  | free mem | cfree mem | cppDelete mem => .free mem
  | munmap addr _ rs => .free (if rs = 0 then addr else 0)

theorem hook_eq_engineOp (ctx : Context R) (call : HookCall)
    (engine : Engine U BasicMappedStorage) :
    call.hook ctx engine = (call.engineOp ctx).apply engine := by
  cases call with
  | mmap addr length flags fd mem =>
      simp only [hook, memhookMmap, mmapHook, engineOp, EngineOp.apply, isNested_zero]
      cases mmapRecords flags fd <;> simp
  | mmap64 addr length flags fd mem =>
      simp only [hook, memhookMmap64, mmapHook, engineOp, EngineOp.apply, isNested_zero]
      cases mmap64Records flags fd <;> simp
  | mremap addr oldLen newLen flags newAddr =>
      by_cases hfailed : newAddr = MAP_FAILED <;>
        simp [hook, memhookMremap, engineOp, EngineOp.apply, hfailed]
  | munmap addr length rs =>
      by_cases hrs : rs = 0 <;> simp [hook, memhookMunmap, engineOp, EngineOp.apply, hrs]
  | _ => rfl

end HookCall

/-! ## Runs of one thread -/

/-- The engine and the blocks that exist. -/
structure World (U : Type*) where
  engine : Engine U BasicMappedStorage
  blocks : Blocks

namespace World

variable {U R : Type*} [CallStackUnwinder U R]

def call (world : World U) (call : Context R × HookCall) : World U :=
  ⟨call.2.hook call.1 world.engine, call.2.blocksAfter world.blocks⟩

def run (world : World U) (calls : List (Context R × HookCall)) : World U :=
  calls.foldl World.call world

/-- Every call of the run has an outcome that is possible when it is made. -/
def PossibleFrom (blocks : Blocks) (calls : List (Context R × HookCall)) : Prop :=
  Run.Along (fun blocks call => call.2.blocksAfter blocks)
    (fun blocks call => call.2.Possible blocks) blocks calls

/-- The same, seen from the world. -/
theorem PossibleFrom.along {world : World U} {calls : List (Context R × HookCall)}
    (h : PossibleFrom world.blocks calls) :
    Run.Along World.call (fun world call => call.2.Possible world.blocks) world calls :=
  Run.Along.comap (fun _ _ => rfl) h

/-- A fresh process: no blocks, no records, with or without a storage. -/
def initial (withStorage : Bool) (unwinder : U) (timeout : Int64) (maxItems : UInt64)
    (policy : CallStackUnwindProcInfoPolicy) : World U :=
  ⟨Engine.onInitialize (if withStorage then some .empty else none) unwinder timeout maxItems
    policy, fun _ => none⟩

theorem refines_initial (withStorage : Bool) (unwinder : U) (timeout : Int64)
    (maxItems : UInt64) (policy : CallStackUnwindProcInfoPolicy) :
    (initial withStorage unwinder timeout maxItems policy).engine.Refines fun _ => none := by
  refine Engine.refines_onInitialize ?_ unwinder timeout maxItems policy
  cases withStorage <;> simp

end World

end Memhook
