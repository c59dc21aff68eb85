import Memhook.Hooks.Hooks

/-!
# No phantom records

A record is a phantom when its address is not the start of an existing block.  Two
things can create one.

* A hook announces a pointer its underlying call did not hand out: `posix_memalign`
  announces `*memptr` whatever the return code is, and `mmap` announces
  `MAP_FAILED`.  `memhook_munmap` and `memhook_mremap` do look at the result first.
* A call takes away the blocks of a whole range while its hook removes the record
  of at most one start address.

`World.Sound` excludes exactly these calls, in terms of the call and of the state
in which it is made.  The invariant is that the map behind the engine has records
of existing blocks only; `blocksAfter` and `applyMap` are compared address by
address.
-/

namespace Memhook

open TwoLevel

/-! ## The calls that go wrong -/

/-- The call takes no recorded block away besides the ones its hook accounts for. -/
def TakesOnly (m : RecordMap) (taken accounted : Address → Prop) : Prop :=
  ∀ address, taken address → accounted address ∨ m address = none

namespace HookCall

/-- What an `mmap` must meet: a failed one is not announced, and a `MAP_FIXED` one
lies over no recorded block (one at the same start may stay if it is not announced
again). -/
def SoundMmap (m : RecordMap) (records : Bool) (addr : Address) (length : UInt64)
    (flags : UInt32) (mem : Address) : Prop :=
  if mem = MAP_FAILED then records = false
  else TakesOnly m (MmapReplaces addr length flags) fun address => address = mem ∧ records = false

/-- The call announces no pointer that was not handed out and takes away no record
it does not remove. -/
def Sound (m : RecordMap) : HookCall → Prop
  | posixMemalign _ rs memptr => rs ≠ 0 → memptr = 0
  | mmap addr length flags fd mem => SoundMmap m (mmapRecords flags fd) addr length flags mem
  | mmap64 addr length flags fd mem => SoundMmap m (mmap64Records flags fd) addr length flags mem
  | mremap addr oldLen newLen flags newAddr => newAddr ≠ MAP_FAILED →
      TakesOnly m (MremapReplaces addr oldLen newLen flags newAddr) (· = addr)
  | munmap addr length rs => rs = 0 → TakesOnly m (InRange addr length) (· = addr)
  | _ => True

end HookCall

/-! ## Records against blocks -/

theorem RecordMap.free_of_none {m : RecordMap} {address : Address} (hnone : m address = none)
    (mem : Address) : m.free mem address = none := by
  unfold free
  split
  · exact hnone
  · rw [Function.update_apply, hnone, ite_self]

/-- Every record is of an existing block, and there is none at `NULL`. -/
structure Backed (m : RecordMap) (blocks : Blocks) : Prop where
  null : m 0 = none
  live : ∀ address, blocks address = none → m address = none

namespace Backed

variable {m : RecordMap} {blocks : Blocks}

/-- A record and a block change together. -/
theorem update (h : Backed m blocks) {mem : Address} (hmem : mem ≠ 0) {record : Option Record}
    {size : Option UInt64} (hrecord : size = none → record = none) :
    Backed (Function.update m mem record) (Function.update blocks mem size) := by
  refine ⟨?_, ?_⟩
  · rw [Function.update_of_ne (Ne.symm hmem)]
    exact h.null
  · intro address hnone
    by_cases heq : address = mem
    · subst heq
      rw [Function.update_self] at hnone ⊢
      exact hrecord hnone
    · rw [Function.update_of_ne heq] at hnone ⊢
      exact h.live address hnone

theorem alloc (h : Backed m blocks) (mem : Address) (record : Record) :
    Backed (m.alloc mem record) (blocks.allocated mem record.memsize) := by
  unfold RecordMap.alloc Blocks.allocated
  by_cases hmem : mem = 0
  · rwa [if_pos hmem, if_pos hmem]
  · rw [if_neg hmem, if_neg hmem]
    exact h.update hmem (by simp)

theorem free (h : Backed m blocks) (mem : Address) :
    Backed (m.free mem) (blocks.released mem) := by
  unfold RecordMap.free Blocks.released
  by_cases hmem : mem = 0
  · rwa [if_pos hmem, if_pos hmem]
  · rw [if_neg hmem, if_neg hmem]
    exact h.update hmem (fun _ => rfl)

/-- Removing a record needs no counterpart among the blocks. -/
theorem forget (h : Backed m blocks) (mem : Address) : Backed (m.free mem) blocks :=
  ⟨RecordMap.free_of_none h.null mem,
    fun address hnone => RecordMap.free_of_none (h.live address hnone) mem⟩

theorem updateSize (h : Backed m blocks) (mem : Address) (size : UInt64) :
    Backed (m.updateSize mem size) blocks := by
  unfold RecordMap.updateSize
  split
  · exact h
  next hmem =>
    have hrecord : blocks mem = none → (m mem).map (Record.resize size) = none := by
      intro hnone
      rw [h.live mem hnone, Option.map_none]
    have hblocks := h.update hmem hrecord
    rwa [Function.update_eq_self] at hblocks

/-- Blocks may go where there is no record, and appear anywhere. -/
theorem mono (h : Backed m blocks) {blocks' : Blocks}
    (hlive : ∀ address, blocks' address = none → blocks address = none ∨ m address = none) :
    Backed m blocks' :=
  ⟨h.null, fun address hnone => (hlive address hnone).elim (h.live address) id⟩

theorem free_null (h : Backed m blocks) (mem : Address) : m.free mem mem = none := by
  unfold RecordMap.free
  split
  · next hmem => rw [hmem]; exact h.null
  · simp

theorem fresh (h : Backed m blocks) {mem : Address} (hnone : mem ≠ 0 → blocks mem = none) :
    mem ≠ 0 → m mem = none :=
  fun hmem => h.live mem (hnone hmem)

end Backed

/-! ## One call -/

namespace HookCall

variable {R : Type*} {m : RecordMap} {blocks : Blocks}

theorem step_backed_alloc (h : Backed m blocks) (ctx : Context R) {mem : Address}
    (hnone : mem ≠ 0 → blocks mem = none) (size : UInt64) :
    (EngineOp.alloc ctx mem size).Admissible m ∧
      Backed ((EngineOp.alloc ctx mem size).applyMap m) (blocks.allocated mem size) :=
  ⟨h.fresh hnone, h.alloc mem _⟩

/-- `mmap` and `mmap64`, whichever their test is. -/
theorem step_backed_mmap (h : Backed m blocks) (ctx : Context R) {records : Bool}
    {addr mem : Address} {length : UInt64} {flags : UInt32}
    (hpossible : mem ≠ MAP_FAILED → length ≠ 0 ∧
      if flags &&& MAP_FIXED ≠ 0 then mem = addr else blocks mem = none)
    (hsound : SoundMmap m records addr length flags mem) :
    (EngineOp.alloc ctx (if records then mem else 0) length).Admissible m ∧
      Backed ((EngineOp.alloc ctx (if records then mem else 0) length).applyMap m)
        (if mem = MAP_FAILED then blocks
          else blocks.mapped (MmapReplaces addr length flags) mem length) := by
  unfold SoundMmap at hsound
  by_cases hfailed : mem = MAP_FAILED
  · rw [if_pos hfailed] at hsound
    subst hsound
    rw [if_pos hfailed]
    exact ⟨fun hmem => absurd rfl hmem, by simpa [EngineOp.applyMap, RecordMap.alloc] using h⟩
  · rw [if_neg hfailed] at hsound ⊢
    obtain ⟨hlength, hplace⟩ := hpossible hfailed
    -- blocks vanish only where nothing is recorded, or at `mem` itself
    have hmapped : Backed m (blocks.mapped (MmapReplaces addr length flags) mem length) := by
      refine h.mono ?_
      intro address hnone
      unfold Blocks.mapped at hnone
      split_ifs at hnone with heq hreplaced
      · exact .inr ((hsound address hreplaced).resolve_left fun hmem => heq hmem.1)
      · exact .inl hnone
    cases records with
    | false =>
        exact ⟨fun hmem => absurd rfl hmem,
          by simpa [EngineOp.applyMap, RecordMap.alloc] using hmapped⟩
    | true =>
        refine ⟨?_, ?_⟩
        · intro _
          show m mem = none
          split_ifs at hplace with hfixed
          · have hself : MmapReplaces addr length flags mem :=
              ⟨hfixed, hplace ▸ inRange_self hlength⟩
            exact (hsound mem hself).resolve_left fun hmem => Bool.noConfusion hmem.2
          · exact h.live mem hplace
        · refine (hmapped.alloc mem (ctx.announced length)).mono fun address hnone => .inl ?_
          unfold Blocks.allocated
          split
          · exact hnone
          · rw [Function.update_apply]
            split
            · next heq => simp [Blocks.mapped, heq] at hnone
            · exact hnone

theorem step_backed_realloc (h : Backed m blocks) (ctx : Context R) {oldMem newMem : Address}
    {size : UInt64} (hpossible : (realloc oldMem size newMem).Possible blocks) :
    (EngineOp.realloc ctx oldMem newMem size).Admissible m ∧
      Backed ((EngineOp.realloc ctx oldMem newMem size).applyMap m)
        ((realloc oldMem size newMem).blocksAfter blocks) := by
  refine ⟨fun hmem hne => h.live newMem ((hpossible.2 hmem).resolve_left hne), ?_⟩
  simp only [EngineOp.applyMap, RecordMap.realloc, blocksAfter]
  by_cases hnull : newMem = 0
  · subst hnull
    by_cases hold : oldMem = 0
    · subst hold
      simpa [RecordMap.updateSize, Blocks.released] using h
    · -- the record goes, whether or not the block does
      have hfree : Backed (m.free oldMem) (blocks.released oldMem) := h.free oldMem
      have hforget : Backed (m.free oldMem) blocks := h.forget oldMem
      by_cases hsize : size = 0 <;> simpa [hold, hsize, RecordMap.alloc]
  · by_cases heq : oldMem = newMem
    · subst heq
      rw [if_pos rfl, if_pos hnull]
      refine (h.updateSize oldMem _).mono fun address hnone => .inl ?_
      by_cases haddress : address = oldMem
      · simp [Blocks.allocated, hnull, haddress] at hnone
      · simpa [Blocks.allocated, Blocks.released, hnull, haddress] using hnone
    · rw [if_neg heq, if_pos hnull]
      exact (h.free oldMem).alloc newMem _

theorem step_backed_mremap (h : Backed m blocks) (ctx : Context R) {addr newAddr : Address}
    {oldLen newLen : UInt64} {flags : UInt32} (hok : newAddr ≠ MAP_FAILED)
    (hpossible : (mremap addr oldLen newLen flags newAddr).Possible blocks)
    (hsound : (mremap addr oldLen newLen flags newAddr).Sound m) :
    (EngineOp.realloc ctx addr newAddr newLen).Admissible m ∧
      Backed ((EngineOp.realloc ctx addr newAddr newLen).applyMap m)
        (blocks.mapped (MremapReplaces addr oldLen newLen flags newAddr) newAddr newLen) := by
  obtain ⟨hlength, hplace⟩ := hpossible hok
  have htakes := hsound hok
  simp only [EngineOp.applyMap, RecordMap.realloc]
  by_cases heq : addr = newAddr
  · subst heq
    refine ⟨fun _ hne => absurd rfl hne, ?_⟩
    rw [if_pos rfl]
    refine Backed.updateSize (h.mono ?_) addr _
    intro address hnone
    unfold Blocks.mapped at hnone
    split_ifs at hnone with haddress hreplaced
    · exact .inr ((htakes address hreplaced).resolve_left haddress)
    · exact .inl hnone
  · refine ⟨?_, ?_⟩
    · intro _ hne
      show m newAddr = none
      rcases hplace with hsame | hfixed | hnone
      · exact absurd hsame hne
      · have hself : MremapReplaces addr oldLen newLen flags newAddr newAddr := by
          unfold MremapReplaces
          rw [if_neg hne]
          exact .inr ⟨hfixed, inRange_self hlength⟩
        exact (htakes newAddr hself).resolve_left hne
      · exact h.live newAddr hnone
    · rw [if_neg heq]
      refine ((h.forget addr).alloc newAddr (ctx.announced newLen)).mono ?_
      intro address hnone
      unfold Blocks.mapped at hnone
      split_ifs at hnone with haddress hreplaced
      · right
        have hgone : m.free addr address = none := by
          rcases htakes address hreplaced with rfl | hrecord
          · exact h.free_null address
          · exact RecordMap.free_of_none hrecord addr
        unfold RecordMap.alloc
        split
        · exact hgone
        · rwa [Function.update_of_ne haddress]
      · left
        unfold Blocks.allocated
        split
        · exact hnone
        · rwa [Function.update_of_ne haddress]

/-- One sound call is admissible and leaves every record backed by a block. -/
theorem step_backed (ctx : Context R) {call : HookCall} (hpossible : call.Possible blocks)
    (hsound : call.Sound m) (h : Backed m blocks) :
    (call.engineOp ctx).Admissible m ∧
      Backed ((call.engineOp ctx).applyMap m) (call.blocksAfter blocks) := by
  cases call with
  | malloc size mem => exact step_backed_alloc h ctx hpossible size
  | memalign size mem => exact step_backed_alloc h ctx hpossible size
  | alignedAlloc size mem => exact step_backed_alloc h ctx hpossible size
  | valloc size mem => exact step_backed_alloc h ctx hpossible size
  | pvalloc size mem => exact step_backed_alloc h ctx hpossible size
  | cppNew size mem => exact step_backed_alloc h ctx hpossible size
  | calloc nmemb size mem =>
      exact step_backed_alloc h ctx (fun hmem => (hpossible hmem).1) (nmemb * size)
  | posixMemalign size rs memptr =>
      simp only [engineOp, blocksAfter]
      by_cases hrs : rs = 0
      · rw [if_pos hrs]
        exact step_backed_alloc h ctx (hpossible hrs) size
      · rw [if_neg hrs, hsound hrs]
        exact ⟨fun hmem => absurd rfl hmem, by simpa [EngineOp.applyMap, RecordMap.alloc] using h⟩
  | mmap addr length flags fd mem => exact step_backed_mmap h ctx hpossible hsound
  | mmap64 addr length flags fd mem => exact step_backed_mmap h ctx hpossible hsound
  | realloc oldMem size newMem => exact step_backed_realloc h ctx hpossible
  | mremap addr oldLen newLen flags newAddr =>
      simp only [engineOp, blocksAfter]
      by_cases hfailed : newAddr = MAP_FAILED
      · rw [if_neg (not_not.mpr hfailed), if_pos hfailed]
        exact ⟨trivial, h.forget 0⟩
      · rw [if_pos hfailed, if_neg hfailed]
        exact step_backed_mremap h ctx hfailed hpossible hsound
  | free mem => exact ⟨trivial, h.free mem⟩
  | cfree mem => exact ⟨trivial, h.free mem⟩
  | cppDelete mem => exact ⟨trivial, h.free mem⟩
  | munmap addr length rs =>
      refine ⟨trivial, ?_⟩
      simp only [engineOp, blocksAfter, EngineOp.applyMap]
      by_cases hrs : rs = 0
      · rw [if_pos hrs, if_pos hrs]
        refine (h.forget addr).mono ?_
        intro address hnone
        split_ifs at hnone with hrange
        · right
          rcases hsound hrs address hrange with rfl | hrecord
          · exact h.free_null address
          · exact RecordMap.free_of_none hrecord addr
        · exact .inl hnone
      · rw [if_neg hrs, if_neg hrs]
        exact h.forget 0

end HookCall

/-! ## Whole runs -/

namespace World

variable {U R : Type*} [CallStackUnwinder U R]

/-- Every call of the run is sound in the state in which it is made. -/
def SoundFrom (world : World U) (calls : List (Context R × HookCall)) : Prop :=
  Run.Along World.call (fun world call => call.2.Sound world.engine.record?) world calls

/-- The engine stands for a map all of whose records are of existing blocks. -/
def PhantomFree (world : World U) : Prop :=
  ∃ m : RecordMap, world.engine.Refines m ∧ Backed m world.blocks

theorem PhantomFree.call {world : World U} (h : world.PhantomFree)
    {call : Context R × HookCall} (hpossible : call.2.Possible world.blocks)
    (hsound : call.2.Sound world.engine.record?) : (world.call call).PhantomFree := by
  obtain ⟨m, hrefines, hbacked⟩ := h
  have hrecords : world.engine.record? = m := funext hrefines.get_eq
  rw [hrecords] at hsound
  obtain ⟨hadmissible, hafter⟩ := HookCall.step_backed call.1 hpossible hsound hbacked
  refine ⟨(call.2.engineOp call.1).applyMap m, ?_, hafter⟩
  rw [World.call, HookCall.hook_eq_engineOp]
  exact hrefines.apply hadmissible

theorem PhantomFree.run {world : World U} (h : world.PhantomFree)
    {calls : List (Context R × HookCall)} (hpossible : PossibleFrom world.blocks calls)
    (hsound : world.SoundFrom calls) : (world.run calls).PhantomFree :=
  Run.invariant (fun h hcall => h.call hcall.1 hcall.2) h (hpossible.along.and hsound)

theorem PhantomFree.record?_eq_none {world : World U} (h : world.PhantomFree)
    {address : Address} (hnone : world.blocks address = none) :
    world.engine.record? address = none := by
  obtain ⟨m, hrefines, hbacked⟩ := h
  exact (hrefines.get_eq address).trans (hbacked.live address hnone)

theorem phantomFree_initial (withStorage : Bool) (unwinder : U) (timeout : Int64)
    (maxItems : UInt64) (policy : CallStackUnwindProcInfoPolicy) :
    (initial withStorage unwinder timeout maxItems policy).PhantomFree :=
  ⟨_, refines_initial withStorage unwinder timeout maxItems policy, rfl, fun _ _ => rfl⟩

/-- **There are no phantom records**, as long as every call is sound.  After any run
of the hooks, with every outcome of the underlying calls, each recorded address is
the start of a block that was handed out and has not been released since. -/
theorem recorded_block_live (withStorage : Bool) (unwinder : U) (timeout : Int64)
    (maxItems : UInt64) (policy : CallStackUnwindProcInfoPolicy)
    (calls : List (Context R × HookCall)) (hpossible : PossibleFrom (fun _ => none) calls)
    (hsound : (initial withStorage unwinder timeout maxItems policy).SoundFrom calls) :
    let world := (initial withStorage unwinder timeout maxItems policy).run calls
    ∀ address record, world.engine.record? address = some record →
      (world.blocks address).isSome := by
  intro world address record hrecord
  have hfree : world.PhantomFree :=
    (phantomFree_initial withStorage unwinder timeout maxItems policy).run hpossible hsound
  by_contra hblock
  have hnone : world.engine.record? address = none :=
    hfree.record?_eq_none (by simpa using hblock)
  simp [hnone] at hrecord

/-- Map, fail to map a file, move the mapping, fail to move it, fail to allocate. -/
def mappingCalls : List (Context Resolver × HookCall) :=
  [(⟨1, [], .silent⟩, .mmap 0 4096 (MAP_PRIVATE ||| MAP_ANONYMOUS) (-1) 65536),
    (⟨2, [], .silent⟩, .mmap 0 4096 MAP_PRIVATE 3 MAP_FAILED),
    (⟨3, [], .silent⟩, .mremap 65536 4096 8192 1 131072),
    (⟨4, [], .silent⟩, .mremap 131072 8192 12288 0 MAP_FAILED),
    (⟨5, [], .silent⟩, .posixMemalign 64 12 0)]

theorem recorded_block_live_mappingCalls :
    ((initial true Impl.Usable.initial 0 1 .kFlushLocalCacheWhen).run mappingCalls).engine.record?
        131072 = some ⟨8192, 3, []⟩ ∧
      (((initial true Impl.Usable.initial 0 1 .kFlushLocalCacheWhen).run mappingCalls).blocks
        131072).isSome := by
  have hrecord : ((initial true Impl.Usable.initial 0 1 .kFlushLocalCacheWhen).run
      mappingCalls).engine.record? 131072 = some ⟨8192, 3, []⟩ := by decide
  have hpossible : PossibleFrom (fun _ => none) mappingCalls := by
    refine ⟨?_, ?_, ?_, ?_, ?_, trivial⟩ <;> simp only [HookCall.Possible] <;> decide
  have hmapped : ∀ m : RecordMap, HookCall.Sound m
      (.mmap 0 4096 (MAP_PRIVATE ||| MAP_ANONYMOUS) (-1) 65536) :=
    fun _ _ hreplaced => absurd hreplaced.1 (by decide)
  have hfile : ∀ m : RecordMap, HookCall.Sound m (.mmap 0 4096 MAP_PRIVATE 3 MAP_FAILED) :=
    fun _ => rfl
  have hfree := ((phantomFree_initial true Impl.Usable.initial 0 1
    .kFlushLocalCacheWhen).call hpossible.1 (hmapped _)).call hpossible.2.1 (hfile _)
  refine ⟨hrecord, recorded_block_live true Impl.Usable.initial 0 1 .kFlushLocalCacheWhen
    mappingCalls hpossible ⟨hmapped _, hfile _, fun _ address _ => ?_, fun h => absurd rfl h,
      fun _ => rfl, trivial⟩ 131072 _ hrecord⟩
  by_cases heq : address = 65536
  · exact .inl heq
  · refine .inr (hfree.record?_eq_none ?_)
    simp [World.call, HookCall.blocksAfter, Blocks.mapped, initial, heq, MAP_FAILED]

/-- A recorded mapping request that fails, and a failed `posix_memalign` with an old
value in `*memptr`. -/
def failedCalls : List (Context Resolver × HookCall) :=
  [(⟨1, [], .silent⟩, .mmap 0 4096 (MAP_PRIVATE ||| MAP_ANONYMOUS) (-1) MAP_FAILED),
    (⟨2, [], .silent⟩, .posixMemalign 64 12 48)]

/-- Both failures leave a record, and no block exists at all. -/
theorem failed_calls_recorded :
    PossibleFrom (fun _ => none) failedCalls ∧
      ((initial true Impl.Usable.initial 2 1 .kFlushLocalCacheWhen).run
        failedCalls).engine.record? MAP_FAILED = some ⟨4096, 1, []⟩ ∧
      ((initial true Impl.Usable.initial 2 1 .kFlushLocalCacheWhen).run
        failedCalls).engine.record? 48 = some ⟨64, 2, []⟩ ∧
      ∀ address, ((initial true Impl.Usable.initial 2 1 .kFlushLocalCacheWhen).run
        failedCalls).blocks address = none := by
  refine ⟨?_, by decide, by decide, fun address => rfl⟩
  refine ⟨?_, ?_, trivial⟩ <;> simp only [HookCall.Possible] <;> decide

end World

end Memhook
