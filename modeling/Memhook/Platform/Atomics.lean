import Mathlib.Data.BitVec

/-!
# The two back ends of the atomics

`src/memhook/atomic-asm-x86.h` and `src/memhook/atomic-gcc.h` define the same functions, for
`atomic32_t` and `atomic64_t`, once with instructions of x86 and once with the builtins of the
compiler.  A function is a step on the word its pointer stands for: it returns a value, if any,
and leaves a word.  Barriers order steps and change neither.

The instructions and the builtins are as documented.  The functions of the two headers
delegate by hand, and in one place to the wrong function: on 64 bits,
`Barrier_AtomicAddAndFetch` of the first header calls `NoBarrier_AtomicFetchAndAdd`, and
returns the value of before.
-/

namespace Memhook

/-! ## Instructions and builtins -/

namespace X86

variable {w : ℕ}

/-- `xchg`: the register and the memory afterwards. -/
def xchg (register memory : BitVec w) : BitVec w × BitVec w := (memory, register)

/-- `lock cmpxchg`: the accumulator and the memory afterwards. -/
def lockCmpxchg (source accumulator memory : BitVec w) : BitVec w × BitVec w :=
  if accumulator = memory then (accumulator, source) else (memory, memory)

/-- `lock xadd`: the register and the memory afterwards. -/
def lockXadd (register memory : BitVec w) : BitVec w × BitVec w := (memory, memory + register)

/-- `mfence`. -/
def mfence (memory : BitVec w) : BitVec w := memory

end X86

/-- The orders that are asked for. -/
inductive MemoryOrder
  | relaxed
  | acquire
  | release
  | seqCst

namespace Builtin

variable {w : ℕ}

def atomicLoadN (_order : MemoryOrder) (memory : BitVec w) : BitVec w × BitVec w :=
  (memory, memory)

def atomicStoreN (value : BitVec w) (_order : MemoryOrder) (_memory : BitVec w) :
    Unit × BitVec w :=
  ((), value)

def atomicExchangeN (value : BitVec w) (_order : MemoryOrder) (memory : BitVec w) :
    BitVec w × BitVec w :=
  (memory, value)

/-- `__atomic_compare_exchange_n`, the strong one: whether it succeeded, what is then in
`expected`, and the memory. -/
def atomicCompareExchangeN (expected desired : BitVec w) (_success _failure : MemoryOrder)
    (memory : BitVec w) : Bool × BitVec w × BitVec w :=
  if memory = expected then (true, expected, desired) else (false, memory, memory)

def atomicFetchAdd (value : BitVec w) (_order : MemoryOrder) (memory : BitVec w) :
    BitVec w × BitVec w :=
  (memory, memory + value)

def atomicAddFetch (value : BitVec w) (_order : MemoryOrder) (memory : BitVec w) :
    BitVec w × BitVec w :=
  (memory + value, memory + value)

end Builtin

/-! ## `atomic-asm-x86.h` -/

namespace AtomicAsmX86

variable {w : ℕ}

def memoryBarrier (word : BitVec w) : BitVec w := X86.mfence word

/-- `COMPILER_BARRIER`. -/
def compilerBarrier (word : BitVec w) : BitVec w := word

def noBarrierLoad (word : BitVec w) : BitVec w × BitVec w := (word, word)

def releaseLoad (word : BitVec w) : BitVec w × BitVec w :=
  let word := memoryBarrier word
  (word, word)

def acquireLoad (word : BitVec w) : BitVec w × BitVec w :=
  let value := word
  (value, compilerBarrier word)

def noBarrierStore (value _word : BitVec w) : Unit × BitVec w := ((), value)

def releaseStore (value word : BitVec w) : Unit × BitVec w :=
  let _word := compilerBarrier word
  ((), value)

def acquireStore (value _word : BitVec w) : Unit × BitVec w := ((), memoryBarrier value)

def noBarrierAtomicExchange (newValue word : BitVec w) : BitVec w × BitVec w :=
  X86.xchg newValue word

def releaseAtomicExchange (newValue word : BitVec w) : BitVec w × BitVec w :=
  noBarrierAtomicExchange newValue word

def acquireAtomicExchange (newValue word : BitVec w) : BitVec w × BitVec w :=
  noBarrierAtomicExchange newValue word

def noBarrierCompareAndSwap (oldValue newValue word : BitVec w) : BitVec w × BitVec w :=
  X86.lockCmpxchg newValue oldValue word

def releaseCompareAndSwap (oldValue newValue word : BitVec w) : BitVec w × BitVec w :=
  noBarrierCompareAndSwap oldValue newValue word

def acquireCompareAndSwap (oldValue newValue word : BitVec w) : BitVec w × BitVec w :=
  noBarrierCompareAndSwap oldValue newValue word

def noBarrierAtomicFetchAndAdd (value word : BitVec w) : BitVec w × BitVec w :=
  X86.lockXadd value word

def noBarrierAtomicAddAndFetch (value word : BitVec w) : BitVec w × BitVec w :=
  let temp := X86.lockXadd value word
  (temp.1 + value, temp.2)

def barrierAtomicFetchAndAdd (value word : BitVec w) : BitVec w × BitVec w :=
  noBarrierAtomicFetchAndAdd value word

/-- On `atomic32_t`. -/
def barrierAtomicAddAndFetch32 (value word : BitVec 32) : BitVec 32 × BitVec 32 :=
  noBarrierAtomicAddAndFetch value word

/-- On `atomic64_t`; it delegates to the other one of the two. -/
def barrierAtomicAddAndFetch64 (value word : BitVec 64) : BitVec 64 × BitVec 64 :=
  noBarrierAtomicFetchAndAdd value word

end AtomicAsmX86

/-! ## `atomic-gcc.h` -/

namespace AtomicGcc

open Builtin MemoryOrder

variable {w : ℕ}

def noBarrierStore (value word : BitVec w) : Unit × BitVec w := atomicStoreN value relaxed word

def releaseStore (value word : BitVec w) : Unit × BitVec w := atomicStoreN value release word

def acquireStore (value word : BitVec w) : Unit × BitVec w := atomicStoreN value seqCst word

def noBarrierLoad (word : BitVec w) : BitVec w × BitVec w := atomicLoadN relaxed word

def releaseLoad (word : BitVec w) : BitVec w × BitVec w := atomicLoadN seqCst word

def acquireLoad (word : BitVec w) : BitVec w × BitVec w := atomicLoadN acquire word

def noBarrierAtomicExchange (newValue word : BitVec w) : BitVec w × BitVec w :=
  atomicExchangeN newValue relaxed word

def acquireAtomicExchange (newValue word : BitVec w) : BitVec w × BitVec w :=
  atomicExchangeN newValue acquire word

def releaseAtomicExchange (newValue word : BitVec w) : BitVec w × BitVec w :=
  atomicExchangeN newValue release word

/-- What is returned is `old_value` as the builtin leaves it. -/
def compareAndSwap (success failure : MemoryOrder) (oldValue newValue word : BitVec w) :
    BitVec w × BitVec w :=
  (atomicCompareExchangeN oldValue newValue success failure word).2

def noBarrierCompareAndSwap (oldValue newValue word : BitVec w) : BitVec w × BitVec w :=
  compareAndSwap relaxed relaxed oldValue newValue word

def acquireCompareAndSwap (oldValue newValue word : BitVec w) : BitVec w × BitVec w :=
  compareAndSwap acquire acquire oldValue newValue word

def releaseCompareAndSwap (oldValue newValue word : BitVec w) : BitVec w × BitVec w :=
  compareAndSwap release acquire oldValue newValue word

def noBarrierAtomicFetchAndAdd (value word : BitVec w) : BitVec w × BitVec w :=
  atomicFetchAdd value relaxed word

def noBarrierAtomicAddAndFetch (value word : BitVec w) : BitVec w × BitVec w :=
  atomicAddFetch value relaxed word

def barrierAtomicFetchAndAdd (value word : BitVec w) : BitVec w × BitVec w :=
  atomicFetchAdd value seqCst word

def barrierAtomicAddAndFetch (value word : BitVec w) : BitVec w × BitVec w :=
  atomicAddFetch value seqCst word

end AtomicGcc

/-! ## All functions -/

/-- The two types of words. -/
inductive AtomicType
  | atomic32
  | atomic64
  deriving DecidableEq

def AtomicType.bits : AtomicType → ℕ
  | atomic32 => 32
  | atomic64 => 64

inductive Barrier
  | noBarrier
  | release
  | acquire
  deriving DecidableEq

/-- The additions are there with all barriers or with none. -/
inductive AddBarrier
  | noBarrier
  | barrier
  deriving DecidableEq

/-- A call of a function that both headers have. -/
inductive AtomicCall (w : ℕ)
  | load (kind : Barrier)
  | store (kind : Barrier) (value : BitVec w)
  | atomicExchange (kind : Barrier) (newValue : BitVec w)
  | compareAndSwap (kind : Barrier) (oldValue newValue : BitVec w)
  | atomicFetchAndAdd (kind : AddBarrier) (value : BitVec w)
  | atomicAddAndFetch (kind : AddBarrier) (value : BitVec w)
  deriving DecidableEq

/-- What a function returned, if anything, and the word in memory. -/
abbrev AtomicResult (w : ℕ) := Option (BitVec w) × BitVec w

section Results

variable {w : ℕ}

/-- A function that returns a value. -/
def AtomicResult.value (result : BitVec w × BitVec w) : AtomicResult w := (some result.1, result.2)

/-- A function that returns `void`. -/
def AtomicResult.void (result : Unit × BitVec w) : AtomicResult w := (none, result.2)

end Results

open AtomicResult

/-- `Barrier_AtomicAddAndFetch` of `atomic-asm-x86.h`. -/
def AtomicAsmX86.barrierAtomicAddAndFetch :
    (type : AtomicType) → (value word : BitVec type.bits) → BitVec type.bits × BitVec type.bits
  | .atomic32 => barrierAtomicAddAndFetch32
  | .atomic64 => barrierAtomicAddAndFetch64

open AtomicAsmX86 in
/-- A call with `atomic-asm-x86.h`. -/
def AtomicCall.asmX86 (type : AtomicType) :
    AtomicCall type.bits → BitVec type.bits → AtomicResult type.bits
  | .load .noBarrier, word => value (noBarrierLoad word)
  | .load .release, word => value (releaseLoad word)
  | .load .acquire, word => value (acquireLoad word)
  | .store .noBarrier v, word => void (noBarrierStore v word)
  | .store .release v, word => void (releaseStore v word)
  | .store .acquire v, word => void (acquireStore v word)
  | .atomicExchange .noBarrier v, word => value (noBarrierAtomicExchange v word)
  | .atomicExchange .release v, word => value (releaseAtomicExchange v word)
  | .atomicExchange .acquire v, word => value (acquireAtomicExchange v word)
  | .compareAndSwap .noBarrier old new, word => value (noBarrierCompareAndSwap old new word)
  | .compareAndSwap .release old new, word => value (releaseCompareAndSwap old new word)
  | .compareAndSwap .acquire old new, word => value (acquireCompareAndSwap old new word)
  | .atomicFetchAndAdd .noBarrier v, word => value (noBarrierAtomicFetchAndAdd v word)
  | .atomicFetchAndAdd .barrier v, word => value (barrierAtomicFetchAndAdd v word)
  | .atomicAddAndFetch .noBarrier v, word => value (noBarrierAtomicAddAndFetch v word)
  | .atomicAddAndFetch .barrier v, word => value (barrierAtomicAddAndFetch type v word)

open AtomicGcc in
/-- A call with `atomic-gcc.h`. -/
def AtomicCall.gcc (type : AtomicType) :
    AtomicCall type.bits → BitVec type.bits → AtomicResult type.bits
  | .load .noBarrier, word => value (noBarrierLoad word)
  | .load .release, word => value (releaseLoad word)
  | .load .acquire, word => value (acquireLoad word)
  | .store .noBarrier v, word => void (noBarrierStore v word)
  | .store .release v, word => void (releaseStore v word)
  | .store .acquire v, word => void (acquireStore v word)
  | .atomicExchange .noBarrier v, word => value (noBarrierAtomicExchange v word)
  | .atomicExchange .release v, word => value (releaseAtomicExchange v word)
  | .atomicExchange .acquire v, word => value (acquireAtomicExchange v word)
  | .compareAndSwap .noBarrier old new, word => value (noBarrierCompareAndSwap old new word)
  | .compareAndSwap .release old new, word => value (releaseCompareAndSwap old new word)
  | .compareAndSwap .acquire old new, word => value (acquireCompareAndSwap old new word)
  | .atomicFetchAndAdd .noBarrier v, word => value (noBarrierAtomicFetchAndAdd v word)
  | .atomicFetchAndAdd .barrier v, word => value (barrierAtomicFetchAndAdd v word)
  | .atomicAddAndFetch .noBarrier v, word => value (noBarrierAtomicAddAndFetch v word)
  | .atomicAddAndFetch .barrier v, word => value (barrierAtomicAddAndFetch v word)

/-! ## Where they agree -/

section Agreement

variable {w : ℕ}

theorem lockCmpxchg_eq (success failure : MemoryOrder) (oldValue newValue word : BitVec w) :
    X86.lockCmpxchg newValue oldValue word =
      AtomicGcc.compareAndSwap success failure oldValue newValue word := by
  unfold X86.lockCmpxchg AtomicGcc.compareAndSwap Builtin.atomicCompareExchangeN
  by_cases hsame : oldValue = word
  · rw [if_pos hsame, if_pos hsame.symm]
  · rw [if_neg hsame, if_neg (Ne.symm hsame)]

/-- The wrong delegate returns the value of before instead of the sum. -/
theorem barrierAtomicAddAndFetch64_eq_iff (v word : BitVec 64) :
    AtomicAsmX86.barrierAtomicAddAndFetch64 v word =
      AtomicGcc.barrierAtomicAddAndFetch v word ↔ v = 0 := by
  have hresults : AtomicAsmX86.barrierAtomicAddAndFetch64 v word =
      AtomicGcc.barrierAtomicAddAndFetch v word ↔ word = word + v := by
    simp [AtomicAsmX86.barrierAtomicAddAndFetch64, AtomicAsmX86.noBarrierAtomicFetchAndAdd,
      X86.lockXadd, AtomicGcc.barrierAtomicAddAndFetch, Builtin.atomicAddFetch]
  rw [hresults, left_eq_add]

theorem value_inj {first second : BitVec w × BitVec w} :
    value first = value second ↔ first = second := by
  simp [value, Prod.ext_iff]

end Agreement

open AtomicCall in
/-- **The back ends agree** on every function, word and argument, but for
`Barrier_AtomicAddAndFetch` on 64 bits with something to add. -/
theorem atomics_agree_iff (type : AtomicType) (call : AtomicCall type.bits)
    (word : BitVec type.bits) :
    call.asmX86 type word = call.gcc type word ↔
      ∀ v, type = .atomic64 → call = .atomicAddAndFetch .barrier v → v = 0 := by
  cases call with
  | load kind =>
      refine iff_of_true ?_ (by simp)
      cases kind <;> rfl
  | store kind v =>
      refine iff_of_true ?_ (by simp)
      cases kind <;> rfl
  | atomicExchange kind v =>
      refine iff_of_true ?_ (by simp)
      cases kind <;> rfl
  | compareAndSwap kind old new =>
      refine iff_of_true ?_ (by simp)
      cases kind <;> exact congrArg value (lockCmpxchg_eq _ _ old new word)
  | atomicFetchAndAdd kind v =>
      refine iff_of_true ?_ (by simp)
      cases kind <;> rfl
  | atomicAddAndFetch kind v =>
      cases kind with
      | noBarrier => exact iff_of_true rfl (by simp)
      | barrier =>
          cases type with
          | atomic32 => exact iff_of_true rfl (by simp)
          | atomic64 =>
              -- the one that delegates to the wrong function
              have hvalue : asmX86 .atomic64 (.atomicAddAndFetch .barrier v) word =
                  gcc .atomic64 (.atomicAddAndFetch .barrier v) word ↔ v = 0 :=
                value_inj.trans (barrierAtomicAddAndFetch64_eq_iff v word)
              rw [hvalue]
              simp

/-- A reference count of 64 bits that goes from 1 to 0: one of the two does not say so. -/
theorem atomics_disagree_release :
    AtomicCall.asmX86 .atomic64 (.atomicAddAndFetch .barrier (-1)) 1 = (some 1, 0) ∧
      AtomicCall.asmX86 .atomic64 (.atomicAddAndFetch .barrier (-1)) 1 ≠
        AtomicCall.gcc .atomic64 (.atomicAddAndFetch .barrier (-1)) 1 := by
  decide

end Memhook
