import Mathlib.Logic.Relation
import Memhook.Hooks.Hooks

/-!
# Hooks on several threads

A hooked call is not atomic: the underlying call and each engine call under
`m_cache_mutex` are steps of their own, and between two steps of one thread the
others may take any number of theirs.  `Machine.Step` is one step of one thread.

`Pc.role` is what a thread is doing with an address.  The program only passes
blocks that no call in progress owns.

`solo_run` connects the steps with the hooks of `Memhook.Hooks.Hooks`: a call that
nobody interrupts does to the engine and to the blocks what the hook and its
underlying call do.
-/

namespace Memhook

/-! ## Threads and their roles -/

/-- What a thread is doing with an address. -/
inductive Role
  | none
  /-- It is going to release, move or resize the block. -/
  | held
  /-- It has removed the record and will release the block. -/
  | dropped
  /-- It was given the block and will announce it. -/
  | allocating (size : UInt64)
  /-- The block has its new size, the record does not. -/
  | resizing (size : UInt64)
  /-- It has released the block and will remove the record. -/
  | released
deriving DecidableEq

/-- The thread is the one that may use the block. -/
def Role.Owns : Role → Prop
  | none | released => False
  | _ => True

/-- The hooked calls, as the program makes them. -/
inductive Call
  | malloc (size : UInt64)
  | mmap (length : UInt64)
  | free (mem : Address)
  | realloc (oldMem : Address) (size : UInt64)
  | mremap (addr : Address) (newLen : UInt64)
  | munmap (addr : Address)

/-- The next step of a thread. -/
inductive Pc
  | idle
  /-- `memhook_free`, before `DoHookFree` and before the underlying call. -/
  | hookFree (mem : Address)
  | free (mem : Address)
  /-- `memhook_malloc` and `memhook_mmap`. -/
  | alloc (size : UInt64)
  | hookAlloc (mem : Address) (size : UInt64)
  /-- `memhook_realloc` and `memhook_mremap`, before the underlying call and before
  `DoHookRealloc`. -/
  | realloc (oldMem : Address) (size : UInt64)
  | hookRealloc (oldMem newMem : Address) (size : UInt64)
  /-- `memhook_munmap`. -/
  | munmap (addr : Address)
  | hookMunmap (addr : Address)
deriving DecidableEq

def Call.start : Call → Pc
  | malloc size | mmap size => .alloc size
  | free mem => .hookFree mem
  | realloc mem size | mremap mem size => .realloc mem size
  | munmap addr => .munmap addr

/-! ## The machine -/

/-- An address that is `mem` and not `NULL`. -/
def IsAt (mem address : Address) : Prop := address = mem ∧ mem ≠ 0

instance (mem address : Address) : Decidable (IsAt mem address) :=
  inferInstanceAs (Decidable (_ ∧ _))

def Pc.role (address : Address) : Pc → Role
  | idle | alloc _ => .none
  | hookFree mem | realloc mem _ | munmap mem => if IsAt mem address then .held else .none
  | free mem => if IsAt mem address then .dropped else .none
  | hookAlloc mem size => if IsAt mem address then .allocating size else .none
  | hookRealloc oldMem newMem size =>
      if oldMem = newMem then if IsAt oldMem address then .resizing size else .none
      else if IsAt oldMem address then .released
      else if IsAt newMem address then .allocating size else .none
  | hookMunmap addr => if IsAt addr address then .released else .none

structure Machine (T U : Type*) where
  engine : Engine U BasicMappedStorage
  blocks : Blocks
  pc : T → Pc

namespace Machine

variable {T U R : Type*} [DecidableEq T] [CallStackUnwinder U R]

def goto (machine : Machine T U) (t : T) (pc : Pc) : Machine T U :=
  { machine with pc := Function.update machine.pc t pc }

@[simp] theorem goto_engine (machine : Machine T U) (t : T) (pc : Pc) :
    (machine.goto t pc).engine = machine.engine := rfl

@[simp] theorem goto_blocks (machine : Machine T U) (t : T) (pc : Pc) :
    (machine.goto t pc).blocks = machine.blocks := rfl

/-- The block is live and no call in progress has it. -/
def Available (machine : Machine T U) (mem : Address) : Prop :=
  (machine.blocks mem).isSome ∧ ∀ t, ¬ ((machine.pc t).role mem).Owns

/-- The program passes its own blocks, or `NULL` where that is allowed. -/
def MayCall (machine : Machine T U) : Call → Prop
  | .malloc _ | .mmap _ => True
  | .free mem | .realloc mem _ => mem = 0 ∨ machine.Available mem
  | .mremap addr _ | .munmap addr => machine.Available addr

/-- The atomic steps.  An underlying call hands out an address that is no block at
that moment; a `realloc` to size zero may return `NULL`. -/
inductive Step (t : T) : Machine T U → Machine T U → Prop
  | call {s} (c : Call) (hpc : s.pc t = .idle) (hcall : s.MayCall c) : Step t s (s.goto t c.start)
  | hookFree {s mem} (hpc : s.pc t = .hookFree mem) :
      Step t s ({ s with engine := s.engine.doHookFree mem }.goto t (.free mem))
  | free {s mem} (hpc : s.pc t = .free mem) :
      Step t s ({ s with blocks := s.blocks.released mem }.goto t .idle)
  | alloc {s size} (mem : Address) (hpc : s.pc t = .alloc size) (hnull : mem ≠ 0)
      (hfresh : s.blocks mem = none) :
      Step t s ({ s with blocks := s.blocks.allocated mem size }.goto t (.hookAlloc mem size))
  | hookAlloc {s mem size} (ctx : Context R) (hpc : s.pc t = .hookAlloc mem size) :
      Step t s ({ s with engine := s.engine.doHookAlloc ctx mem size }.goto t .idle)
  | inPlace {s mem size} (hpc : s.pc t = .realloc mem size) (hnull : mem = 0 → size = 0) :
      Step t s ({ s with blocks := s.blocks.allocated mem size }.goto t (.hookRealloc mem mem size))
  | moved {s oldMem size} (newMem : Address) (hpc : s.pc t = .realloc oldMem size)
      (hne : oldMem ≠ newMem) (hnull : newMem = 0 → size = 0)
      (hfresh : newMem ≠ 0 → s.blocks newMem = none) :
      Step t s ({ s with blocks := (s.blocks.released oldMem).allocated newMem size }.goto t
        (.hookRealloc oldMem newMem size))
  | hookUpdateSize {s mem size} (hpc : s.pc t = .hookRealloc mem mem size) :
      Step t s ({ s with engine := s.engine.doHookUpdateSize mem size }.goto t .idle)
  | hookReallocFree {s oldMem newMem size} (hpc : s.pc t = .hookRealloc oldMem newMem size)
      (hne : oldMem ≠ newMem) :
      Step t s ({ s with engine := s.engine.doHookFree oldMem }.goto t (.hookAlloc newMem size))
  | munmap {s addr} (hpc : s.pc t = .munmap addr) :
      Step t s ({ s with blocks := s.blocks.released addr }.goto t (.hookMunmap addr))
  | hookMunmap {s addr} (hpc : s.pc t = .hookMunmap addr) :
      Step t s ({ s with engine := s.engine.doHookFree addr }.goto t .idle)

/-! ## A call that nobody interrupts -/

end Machine

namespace HookCall

/-- The call of the program behind a call of a hook. -/
def call? : HookCall → Option Call
  | malloc size _ => some (.malloc size)
  | mmap _ length _ _ _ => some (.mmap length)
  | free mem => some (.free mem)
  | realloc oldMem size _ => some (.realloc oldMem size)
  | mremap addr _ newLen _ _ => some (.mremap addr newLen)
  | munmap addr _ _ => some (.munmap addr)
  | _ => none

/-- The range holds no start of a block besides its own. -/
def WholeMapping (blocks : Blocks) (addr : Address) (length : UInt64) : Prop :=
  length ≠ 0 ∧ ∀ address, InRange addr length address → address = addr ∨ blocks address = none

/-- The calls of the machine: successful ones, of anonymous mappings that are no
stacks, at an address the kernel chose, and of whole mappings. -/
def Plain (blocks : Blocks) : HookCall → Prop
  | malloc _ mem => mem ≠ 0
  | mmap _ _ flags fd mem =>
      mem ≠ 0 ∧ mem ≠ MAP_FAILED ∧ flags &&& MAP_FIXED = 0 ∧ mmapRecords flags fd
  | free _ => True
  | realloc _ size newMem => newMem = 0 → size = 0
  | mremap addr oldLen _ flags newAddr =>
      addr ≠ 0 ∧ newAddr ≠ 0 ∧ newAddr ≠ MAP_FAILED ∧ flags &&& MREMAP_FIXED = 0 ∧
        WholeMapping blocks addr oldLen
  | munmap addr length rs => addr ≠ 0 ∧ rs = 0 ∧ WholeMapping blocks addr length
  | _ => False

/-- A mapping handed out by the kernel. -/
theorem blocksAfter_mmap {blocks : Blocks} {addr mem : Address} {length : UInt64}
    {flags : UInt32} {fd : ℤ} (h : (mmap addr length flags fd mem).Plain blocks) :
    (mmap addr length flags fd mem).blocksAfter blocks = blocks.allocated mem length := by
  obtain ⟨hnull, hok, hfixed, -⟩ := h
  funext address
  simp [blocksAfter, hok, Blocks.mapped, MmapReplaces, hfixed, Blocks.allocated, hnull,
    Function.update_apply]

theorem blocksAfter_munmap {blocks : Blocks} {addr : Address} {length : UInt64} {rs : ℤ}
    (h : (munmap addr length rs).Plain blocks) :
    (munmap addr length rs).blocksAfter blocks = blocks.released addr := by
  obtain ⟨hnull, hok, hlength, hwhole⟩ := h
  funext address
  simp only [blocksAfter, if_pos hok, Blocks.released, if_neg hnull, Function.update_apply]
  by_cases heq : address = addr
  · rw [if_pos heq, heq, if_pos (inRange_self hlength)]
  · rw [if_neg heq]
    split
    · next hrange => exact ((hwhole address hrange).resolve_left heq).symm
    · rfl

/-- `mremap` of a whole mapping does to the blocks what `realloc` does. -/
theorem blocksAfter_mremap {blocks : Blocks} {addr newAddr : Address} {oldLen newLen : UInt64}
    {flags : UInt32} (h : (mremap addr oldLen newLen flags newAddr).Plain blocks) :
    (mremap addr oldLen newLen flags newAddr).blocksAfter blocks =
      (realloc addr newLen newAddr).blocksAfter blocks := by
  obtain ⟨hnull, hnew, hok, hfixed, hlength, hwhole⟩ := h
  funext address
  simp only [blocksAfter, if_neg hok, if_pos hnew, Blocks.mapped, Blocks.allocated,
    if_neg hnew, Blocks.released, if_neg hnull, Function.update_apply]
  by_cases heq : address = newAddr
  · rw [if_pos heq, if_pos heq]
  · rw [if_neg heq, if_neg heq]
    by_cases hold : address = addr
    · -- the mapping has moved away from its old start
      have hmoved : newAddr ≠ addr := fun hsame => heq (hold.trans hsame.symm)
      have hreplaced : MremapReplaces addr oldLen newLen flags newAddr address := by
        rw [MremapReplaces, if_neg hmoved, hold]
        exact .inl (inRange_self hlength)
      rw [if_pos hreplaced, if_pos hold]
    · rw [if_neg hold]
      split
      · -- nothing else of the old range is the start of a block
        next hreplaced =>
          have hrange : InRange addr oldLen address := by
            unfold MremapReplaces at hreplaced
            split_ifs at hreplaced with hsame
            · exact ⟨by omega, hreplaced.2⟩
            · exact hreplaced.resolve_right fun h => h.1 hfixed
          exact ((hwhole address hrange).resolve_left hold).symm
      · rfl

end HookCall

namespace Machine

variable {T U R : Type*} [DecidableEq T] [CallStackUnwinder U R]

/-- The engine calls of `DoHookRealloc`. -/
theorem run_hookRealloc {s : Machine T U} {t : T} (ctx : Context R) {oldMem newMem : Address}
    {size : UInt64} (hpc : s.pc t = .hookRealloc oldMem newMem size) :
    Relation.ReflTransGen (Step t) s
      ({ s with engine := s.engine.doHookRealloc ctx oldMem newMem size }.goto t .idle) := by
  by_cases heq : oldMem = newMem
  · subst heq
    rw [Engine.doHookRealloc, if_pos rfl]
    exact .single (.hookUpdateSize hpc)
  · rw [Engine.doHookRealloc, if_neg heq]
    have hfree := Step.hookReallocFree hpc heq
    have halloc := Step.hookAlloc (t := t)
      (s := { s with engine := s.engine.doHookFree oldMem }.goto t (.hookAlloc newMem size)) ctx
      (Function.update_self ..)
    refine .tail (.single hfree) ?_
    simpa [goto] using halloc

/-- `memhook_realloc` and `memhook_mremap` from the underlying call on. -/
theorem run_realloc {s : Machine T U} {t : T} (ctx : Context R) {oldMem newMem : Address}
    {size : UInt64} (hpc : s.pc t = .realloc oldMem size)
    (hfresh : newMem ≠ 0 → newMem ≠ oldMem → s.blocks newMem = none)
    (hok : newMem = 0 → size = 0) :
    Relation.ReflTransGen (Step t) s
      ({ s with
          engine := s.engine.doHookRealloc ctx oldMem newMem size
          blocks := (HookCall.realloc oldMem size newMem).blocksAfter s.blocks }.goto t .idle) := by
  have hunderlying : Step t s
      ({ s with blocks := (HookCall.realloc oldMem size newMem).blocksAfter s.blocks }.goto t
        (.hookRealloc oldMem newMem size)) := by
    by_cases heq : oldMem = newMem
    · subst heq
      have hblocks : (HookCall.realloc oldMem size oldMem).blocksAfter s.blocks =
          s.blocks.allocated oldMem size := by
        by_cases hnull : oldMem = 0
        · simp [HookCall.blocksAfter, hnull, hok hnull, Blocks.allocated, Blocks.released]
        · simp [HookCall.blocksAfter, hnull, Blocks.allocated, Blocks.released]
      rw [hblocks]
      exact .inPlace hpc hok
    · have hblocks : (HookCall.realloc oldMem size newMem).blocksAfter s.blocks =
          (s.blocks.released oldMem).allocated newMem size := by
        by_cases hnull : newMem = 0
        · simp [HookCall.blocksAfter, hnull, hok hnull, Blocks.allocated]
        · simp [HookCall.blocksAfter, hnull]
      rw [hblocks]
      exact .moved newMem hpc heq hok fun hnull => hfresh hnull fun h => heq h.symm
  have hhooks := run_hookRealloc (t := t)
    (s := { s with blocks := (HookCall.realloc oldMem size newMem).blocksAfter s.blocks }.goto t
      (.hookRealloc oldMem newMem size)) ctx (Function.update_self ..)
  refine .trans (.single hunderlying) ?_
  simpa [goto] using hhooks

/-- `memhook_malloc` and `memhook_mmap` from the underlying call on. -/
theorem run_alloc {s : Machine T U} {t : T} (ctx : Context R) {mem : Address} {size : UInt64}
    (hpc : s.pc t = .alloc size) (hnull : mem ≠ 0) (hfresh : s.blocks mem = none) :
    Relation.ReflTransGen (Step t) s
      ({ s with
          engine := s.engine.doHookAlloc ctx mem size
          blocks := s.blocks.allocated mem size }.goto t .idle) := by
  have hhook := Step.hookAlloc (t := t)
    (s := { s with blocks := s.blocks.allocated mem size }.goto t (.hookAlloc mem size)) ctx
    (Function.update_self ..)
  refine .tail (.single (.alloc mem hpc hnull hfresh)) ?_
  simpa [goto] using hhook

/-- `memhook_free`: the record goes first. -/
theorem run_free {s : Machine T U} {t : T} {mem : Address} (hpc : s.pc t = .hookFree mem) :
    Relation.ReflTransGen (Step t) s
      ({ s with
          engine := s.engine.doHookFree mem
          blocks := s.blocks.released mem }.goto t .idle) := by
  have hfree := Step.free (t := t)
    (s := { s with engine := s.engine.doHookFree mem }.goto t (.free mem)) (Function.update_self ..)
  refine .tail (.single (.hookFree hpc)) ?_
  simpa [goto] using hfree

/-- `memhook_munmap`: the mapping goes first. -/
theorem run_munmap {s : Machine T U} {t : T} {addr : Address} (hpc : s.pc t = .munmap addr) :
    Relation.ReflTransGen (Step t) s
      ({ s with
          engine := s.engine.doHookFree addr
          blocks := s.blocks.released addr }.goto t .idle) := by
  have hhook := Step.hookMunmap (t := t)
    (s := { s with blocks := s.blocks.released addr }.goto t (.hookMunmap addr))
    (Function.update_self ..)
  refine .tail (.single (.munmap hpc)) ?_
  simpa [goto] using hhook

/-- A call that no other thread interrupts does what the hook does to the engine and
what its underlying call does to the blocks. -/
theorem solo_run {s : Machine T U} {t : T} (hpc : s.pc t = .idle) (ctx : Context R)
    {call : HookCall} {c : Call} (hcall : call.call? = some c) (hmay : s.MayCall c)
    (hpossible : call.Possible s.blocks) (hplain : call.Plain s.blocks) :
    Relation.ReflTransGen (Step t) s
      { s with engine := call.hook ctx s.engine, blocks := call.blocksAfter s.blocks } := by
  have hstart : Step t s (s.goto t c.start) := .call c hpc hmay
  have hstarted : (s.goto t c.start).pc t = c.start := Function.update_self ..
  -- a run of the body of the call ends where it began
  have hbody : ∀ (engine : Engine U BasicMappedStorage) (blocks : Blocks),
      Relation.ReflTransGen (Step t) (s.goto t c.start)
        ({ s.goto t c.start with engine := engine, blocks := blocks }.goto t .idle) →
      Relation.ReflTransGen (Step t) s { s with engine := engine, blocks := blocks } := by
    intro engine blocks hrun
    refine .head hstart ?_
    simpa [goto, ← hpc] using hrun
  cases call with
  | malloc size mem =>
      cases hcall
      exact hbody _ _ (run_alloc ctx hstarted hplain (hpossible hplain))
  | mmap addr length flags fd mem =>
      cases hcall
      obtain ⟨hnull, hok, hfixed, hrecords⟩ := hplain
      have hfresh : s.blocks mem = none := by simpa [hfixed] using (hpossible hok).2
      have hrun := hbody _ _ (run_alloc ctx hstarted hnull hfresh)
      rw [HookCall.blocksAfter_mmap ⟨hnull, hok, hfixed, hrecords⟩]
      simpa [HookCall.hook, memhookMmap, mmapHook, hrecords] using hrun
  | free mem =>
      cases hcall
      exact hbody _ _ (run_free hstarted)
  | realloc oldMem size newMem =>
      cases hcall
      have hfresh : newMem ≠ 0 → newMem ≠ oldMem → s.blocks newMem = none :=
        fun hnull hne => (hpossible.2 hnull).resolve_left hne
      exact hbody _ _ (run_realloc ctx hstarted hfresh hplain)
  | mremap addr oldLen newLen flags newAddr =>
      cases hcall
      obtain ⟨hnull, hnew, hok, hfixed, hwhole⟩ := hplain
      have hfresh : newAddr ≠ 0 → newAddr ≠ addr → s.blocks newAddr = none := by
        intro _ hne
        simpa [hne, hfixed] using (hpossible hok).2
      have hrun := hbody _ _ (run_realloc ctx hstarted hfresh fun h => absurd h hnew)
      rw [HookCall.blocksAfter_mremap ⟨hnull, hnew, hok, hfixed, hwhole⟩]
      simpa [HookCall.hook, memhookMremap, hok] using hrun
  | munmap addr length rs =>
      cases hcall
      have hrun := hbody _ _ (run_munmap hstarted)
      rw [HookCall.blocksAfter_munmap hplain]
      simpa [HookCall.hook, memhookMunmap, hplain.2.1] using hrun
  | _ => simp [HookCall.call?] at hcall

end Machine

end Memhook
