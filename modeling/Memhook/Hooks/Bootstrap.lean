import Memhook.Lib.Run
import Memhook.TraceInfo

/-!
# Allocations while the process starts

The hooks call libc through `DLFunctions` (`src/memhook/dl_functions.cpp`), and the first call
fills the table with `dlsym`.  `dlsym` and `dlerror` may allocate themselves, so three of the
pointers stand for `StaticBufAlloc` (`src/memhook/static_buf_alloc.cpp`) until their symbols
are found.  A process here makes calls, at any time and any number of them while a symbol is
looked up; `resolved` counts the symbols that `DoInitialize` has.  The first call itself goes
through the table when `DoInitialize` is done.

With the third symbol the pointers change from one allocator to the other, and nobody
remembers which blocks are whose: `do_free` and `do_realloc` do not look at the address.  Nor
is there a `realloc` before the fourth symbol.  `Timely` is the condition under which neither
shows, and it is exact.

Looking up a symbol succeeds, as `MEMHOOK_EXPECT` demands.  The other pointers of the table
are left out; `others` is the number of symbols that follow `realloc`.
-/

namespace Memhook

/-- Whose function a pointer stands for. -/
inductive Allocator
  | staticBufAlloc
  | libc
  deriving DecidableEq, Repr

/-- The pointers of the table; `none` is `NULL`. -/
structure DLFunctions where
  free : Option Allocator
  malloc : Option Allocator
  calloc : Option Allocator
  realloc : Option Allocator

/-- `do_malloc`, `do_calloc`, `do_realloc` and `do_free`. -/
inductive AllocCall
  | malloc (size : UInt64)
  | calloc (nmemb size : UInt64)
  | realloc (mem : Address) (size : UInt64)
  | free (mem : Address)

namespace AllocCall

/-- The pointer that is called. -/
def pointer (dl : DLFunctions) : AllocCall → Option Allocator
  | malloc _ => dl.malloc
  | calloc _ _ => dl.calloc
  | realloc _ _ => dl.realloc
  | free _ => dl.free

/-- The block that is given back. -/
def mem? : AllocCall → Option Address
  | realloc mem _ | free mem => some mem
  | malloc _ | calloc _ _ => none

end AllocCall

/-- A block that was handed out: by whom, and how many symbols there were. -/
structure HandedOut where
  address : Address
  producer : Allocator
  resolved : ℕ

structure BootProcess where
  dl : DLFunctions
  resolved : ℕ
  /-- The call that waits for `DoInitialize`, and what libc will return to it. -/
  pending : Option (AllocCall × Address)
  tmppos : UInt64
  /-- The last block comes first. -/
  blocks : List HandedOut

/-- A call, with what libc returns if it is asked; `dlsym` has returned and the pointer is
set; or `DoInitialize` has returned and the first call goes on. -/
inductive BootEvent
  | call (request : AllocCall) (answer : Address)
  | symbol
  | resume

/-- `StaticBufAlloc::malloc`: the block and `tmppos_` afterwards. -/
def StaticBufAlloc.malloc (tmpbuf : Address) (tmppos size : UInt64) : Address × UInt64 :=
  if tmppos + size ≥ 8192 then (0, tmppos) else (tmpbuf + tmppos, tmppos + size)

/-- `StaticBufAlloc::calloc`. -/
def StaticBufAlloc.calloc (tmpbuf : Address) (tmppos nmemb size : UInt64) : Address × UInt64 :=
  StaticBufAlloc.malloc tmpbuf tmppos (nmemb * size)

namespace BootProcess

/-- Nothing has been called. -/
def initial : BootProcess := ⟨⟨none, none, none, none⟩, 0, none, 0, []⟩

/-- The last block that was handed out at an address. -/
def block? (process : BootProcess) (mem : Address) : Option HandedOut :=
  process.blocks.find? fun block => block.address = mem

def handOut (address : Address) (producer : Allocator) (process : BootProcess) : BootProcess :=
  if address = 0 then process
  else { process with blocks := ⟨address, producer, process.resolved⟩ :: process.blocks }

/-- An allocation through a pointer, with what the two allocators return. -/
def allocate (pointer : Option Allocator) (buffer : Address × UInt64) (answer : Address)
    (process : BootProcess) : BootProcess :=
  match pointer with
  | none => process
  | some .staticBufAlloc =>
      { process with tmppos := buffer.2 }.handOut buffer.1 .staticBufAlloc
  | some .libc => process.handOut answer .libc

section Step

variable (tmpbuf : Address) (others : ℕ)

/-- The call through its pointer. -/
def perform (request : AllocCall) (answer : Address) (process : BootProcess) : BootProcess :=
  match request with
  | .malloc size =>
      process.allocate process.dl.malloc (StaticBufAlloc.malloc tmpbuf process.tmppos size) answer
  | .calloc nmemb size =>
      process.allocate process.dl.calloc
        (StaticBufAlloc.calloc tmpbuf process.tmppos nmemb size) answer
  | .realloc _ _ =>
      match process.dl.realloc with
      | none => process
      | some producer => process.handOut answer producer
  | .free _ => process

/-- The start of `DoInitialize`. -/
def beginInitialize (request : AllocCall) (answer : Address) (process : BootProcess) :
    BootProcess :=
  { process with
    dl := { process.dl with
      free := some .staticBufAlloc, malloc := some .staticBufAlloc,
      calloc := some .staticBufAlloc }
    pending := some (request, answer) }

/-- The next symbol of `DoInitialize`. -/
def dlSymRtldNext (process : BootProcess) : BootProcess :=
  let dl :=
    if process.resolved = 2 then
      { process.dl with free := some .libc, malloc := some .libc, calloc := some .libc }
    else if process.resolved = 3 then { process.dl with realloc := some .libc }
    else process.dl
  { process with dl := dl, resolved := process.resolved + 1 }

def step (process : BootProcess) : BootEvent → BootProcess
  | .call request answer =>
      if process.dl.free = none then process.beginInitialize request answer
      else process.perform tmpbuf request answer
  | .symbol =>
      if process.dl.free ≠ none ∧ process.resolved < 4 + others then process.dlSymRtldNext
      else process
  | .resume =>
      if process.resolved = 4 + others then
        match process.pending with
        | none => process
        | some first => { process with pending := none }.perform tmpbuf first.1 first.2
      else process

/-- The call that is made through the table. -/
def made (process : BootProcess) : BootEvent → Option AllocCall
  | .call request _ => if process.dl.free = none then none else some request
  | .symbol => none
  | .resume => if process.resolved = 4 + others then process.pending.map Prod.fst else none

/-- The pointer is not `NULL`, and a block is given back to whom it is from. -/
def Sound (process : BootProcess) (request : AllocCall) : Prop :=
  request.pointer process.dl ≠ none ∧
    ∀ mem, request.mem? = some mem → mem ≠ 0 →
      ∀ block, process.block? mem = some block →
        request.pointer process.dl = some block.producer

/-- `realloc` is called when there are four symbols, and a block from before the third symbol
is given back before it. -/
def InTime (process : BootProcess) (request : AllocCall) : Prop :=
  (∀ mem size, request = .realloc mem size → 4 ≤ process.resolved) ∧
    ∀ mem, request.mem? = some mem → mem ≠ 0 →
      ∀ block, process.block? mem = some block → block.resolved < 3 → process.resolved < 3

/-- Blocks stay with their allocators. -/
def Stays (process : BootProcess) (event : BootEvent) : Prop :=
  ∀ request, process.made others event = some request → process.Sound request

/-- The calls come when the table is ready for them. -/
def Timely (process : BootProcess) (event : BootEvent) : Prop :=
  ∀ request, process.made others event = some request → process.InTime request

end Step

/-! ## The stages of the table -/

/-- Whose the three pointers are when so many symbols are resolved. -/
def owner (resolved : ℕ) : Allocator := if resolved < 3 then .staticBufAlloc else .libc

theorem owner_eq_iff {earlier later : ℕ} (h : earlier ≤ later) :
    owner later = owner earlier ↔ (earlier < 3 → later < 3) := by
  unfold owner
  by_cases hlater : later < 3
  · have hearlier : earlier < 3 := by omega
    simp [hlater, hearlier]
  · by_cases hearlier : earlier < 3 <;> simp [hlater, hearlier]

/-- The table while and after `DoInitialize` runs. -/
def tableAt (resolved : ℕ) : DLFunctions :=
  ⟨some (owner resolved), some (owner resolved), some (owner resolved),
    if 4 ≤ resolved then some .libc else none⟩

/-- The table is as the number of symbols says, and so are the blocks. -/
structure Staged (process : BootProcess) : Prop where
  table : process.dl = ⟨none, none, none, none⟩ ∧ process.resolved = 0 ∨
    process.dl = tableAt process.resolved
  produced : ∀ block ∈ process.blocks,
    block.producer = owner block.resolved ∧ block.resolved ≤ process.resolved

namespace Staged

variable {process : BootProcess}

theorem dl_eq (h : process.Staged) (hready : process.dl.free ≠ none) :
    process.dl = tableAt process.resolved := by
  rcases h.table with ⟨hnull, -⟩ | hdl
  · rw [hnull] at hready
    exact absurd rfl hready
  · exact hdl

/-- The pointer of a call. -/
theorem pointer_eq (h : process.Staged) (hready : process.dl.free ≠ none) {request : AllocCall}
    (hrealloc : ∀ mem size, request = .realloc mem size → 4 ≤ process.resolved) :
    request.pointer process.dl = some (owner process.resolved) := by
  rw [h.dl_eq hready]
  cases request with
  | malloc size => rfl
  | calloc nmemb size => rfl
  | free mem => rfl
  | realloc mem size =>
      have hfour := hrealloc mem size rfl
      have howner : owner process.resolved = .libc := if_neg (by omega)
      rw [howner]
      exact if_pos hfour

theorem pointer_realloc_eq_none (h : process.Staged) (hready : process.dl.free ≠ none)
    (hfew : process.resolved < 4) (mem : Address) (size : UInt64) :
    (AllocCall.realloc mem size).pointer process.dl = none := by
  rw [h.dl_eq hready]
  exact if_neg (by omega)

/-- A call stays with the allocators exactly if it comes in time. -/
theorem sound_iff (h : process.Staged) (hready : process.dl.free ≠ none) (request : AllocCall) :
    process.Sound request ↔ process.InTime request := by
  by_cases hrealloc : ∀ mem size, request = .realloc mem size → 4 ≤ process.resolved
  · have hpointer := h.pointer_eq hready hrealloc
    unfold Sound InTime
    rw [and_iff_right hrealloc, hpointer, and_iff_right (by simp)]
    refine forall_congr' fun mem => forall₂_congr fun _ _ => forall₂_congr fun block hblock => ?_
    obtain ⟨hproducer, hle⟩ := h.produced block (List.mem_of_find?_eq_some hblock)
    rw [Option.some.injEq, hproducer, owner_eq_iff hle]
  · refine iff_of_false ?_ fun hintime => hrealloc hintime.1
    push Not at hrealloc
    obtain ⟨mem, size, rfl, hfew⟩ := hrealloc
    intro hsound
    exact hsound.1 (h.pointer_realloc_eq_none hready (by omega) mem size)

/-! ### One step -/

theorem handOut (h : process.Staged) {producer : Allocator}
    (hproducer : producer = owner process.resolved) (address : Address) :
    (process.handOut address producer).Staged := by
  unfold BootProcess.handOut
  split
  · exact h
  · refine ⟨h.table, ?_⟩
    intro block hblock
    rcases List.mem_cons.mp hblock with rfl | hblock
    · exact ⟨hproducer, Nat.le_refl _⟩
    · exact h.produced block hblock

theorem allocate (h : process.Staged) {pointer : Option Allocator}
    (hpointer : pointer = some (owner process.resolved)) (buffer : Address × UInt64)
    (answer : Address) : (process.allocate pointer buffer answer).Staged := by
  subst hpointer
  unfold BootProcess.allocate
  cases howner : owner process.resolved with
  | staticBufAlloc =>
      have hmoved : Staged { process with tmppos := buffer.2 } := ⟨h.table, h.produced⟩
      exact hmoved.handOut howner.symm buffer.1
  | libc => exact h.handOut howner.symm answer

theorem perform (h : process.Staged) (hready : process.dl.free ≠ none) (tmpbuf : Address)
    (request : AllocCall) (answer : Address) :
    (process.perform tmpbuf request answer).Staged := by
  have hdl := h.dl_eq hready
  cases request with
  | malloc size => exact h.allocate (congrArg DLFunctions.malloc hdl) _ answer
  | calloc nmemb size => exact h.allocate (congrArg DLFunctions.calloc hdl) _ answer
  | free mem => exact h
  | realloc mem size =>
      unfold BootProcess.perform
      rw [show process.dl.realloc = _ from congrArg DLFunctions.realloc hdl]
      by_cases hfour : 4 ≤ process.resolved
      · have howner : Allocator.libc = owner process.resolved := (if_neg (by omega)).symm
        simp only [tableAt, if_pos hfour]
        exact h.handOut howner answer
      · simp only [tableAt, if_neg hfour]
        exact h

theorem beginInitialize (h : process.Staged) (hnull : process.dl.free = none)
    (request : AllocCall) (answer : Address) :
    (process.beginInitialize request answer).Staged := by
  refine ⟨.inr ?_, h.produced⟩
  rcases h.table with ⟨hdl, hzero⟩ | hdl
  · simp only [BootProcess.beginInitialize, hdl, hzero]
    rfl
  · rw [hdl] at hnull
    exact absurd hnull (by simp [tableAt])

theorem dlSymRtldNext (h : process.Staged) (hready : process.dl.free ≠ none) :
    process.dlSymRtldNext.Staged := by
  have hdl := h.dl_eq hready
  refine ⟨.inr ?_, ?_⟩
  · unfold BootProcess.dlSymRtldNext
    simp only [hdl]
    split
    next htwo =>
      -- the third symbol: the three pointers change together
      simp [htwo, tableAt, owner]
    next =>
      split
      next hthree => simp [hthree, tableAt, owner]
      next hother =>
        have howner : owner (process.resolved + 1) = owner process.resolved :=
          (owner_eq_iff (Nat.le_succ _)).mpr (by omega)
        have hfour : 4 ≤ process.resolved + 1 ↔ 4 ≤ process.resolved := by omega
        simp only [tableAt, howner, hfour]
  · intro block hblock
    obtain ⟨hproducer, hle⟩ := h.produced block hblock
    exact ⟨hproducer, Nat.le_succ_of_le hle⟩

/-- When `DoInitialize` is done, the table is filled. -/
theorem ready_of_resolved (h : process.Staged) {others : ℕ}
    (hdone : process.resolved = 4 + others) : process.dl.free ≠ none := by
  rcases h.table with ⟨-, hzero⟩ | hdl
  · omega
  · rw [hdl]
    simp [tableAt]

theorem step (h : process.Staged) (tmpbuf : Address) (others : ℕ) (event : BootEvent) :
    (process.step tmpbuf others event).Staged := by
  cases event with
  | call request answer =>
      by_cases hnull : process.dl.free = none
      · simp only [BootProcess.step, if_pos hnull]
        exact h.beginInitialize hnull request answer
      · simp only [BootProcess.step, if_neg hnull]
        exact h.perform hnull tmpbuf request answer
  | symbol =>
      by_cases hnext : process.dl.free ≠ none ∧ process.resolved < 4 + others
      · simp only [BootProcess.step, if_pos hnext]
        exact h.dlSymRtldNext hnext.1
      · simp only [BootProcess.step, if_neg hnext]
        exact h
  | resume =>
      by_cases hdone : process.resolved = 4 + others
      · simp only [BootProcess.step, if_pos hdone]
        cases process.pending with
        | none => exact h
        | some first =>
            have hcleared : Staged { process with pending := none } := ⟨h.table, h.produced⟩
            exact hcleared.perform (h.ready_of_resolved hdone) tmpbuf first.1 first.2
      · simp only [BootProcess.step, if_neg hdone]
        exact h

/-- Only a filled table is called through. -/
theorem ready_of_made (h : process.Staged) {others : ℕ} {event : BootEvent}
    {request : AllocCall} (hmade : process.made others event = some request) :
    process.dl.free ≠ none := by
  cases event with
  | call request answer =>
      intro hnull
      simp [made, hnull] at hmade
  | symbol => simp [made] at hmade
  | resume =>
      by_cases hdone : process.resolved = 4 + others
      · exact h.ready_of_resolved hdone
      · simp [made, hdone] at hmade

theorem stays_iff (h : process.Staged) (others : ℕ) (event : BootEvent) :
    process.Stays others event ↔ process.Timely others event :=
  forall₂_congr fun request hmade => h.sound_iff (h.ready_of_made hmade) request

end Staged

theorem staged_initial : initial.Staged :=
  ⟨.inl ⟨rfl, rfl⟩, fun _ hblock => absurd hblock List.not_mem_nil⟩

/-- **Blocks and their allocators.**  In a run of calls, with any of them made while symbols
are looked up, every call goes through a pointer that is set and every block is given back to
the allocator it is from, if and only if nothing is reallocated before the fourth symbol is
resolved and what was handed out before the third is not given back after it. -/
theorem bootstrap_stays_iff (tmpbuf : Address) (others : ℕ) (events : List BootEvent) :
    Run.Along (step tmpbuf others) (Stays others) initial events ↔
      Run.Along (step tmpbuf others) (Timely others) initial events := by
  constructor
  · exact Run.Along.of_invariant (I := Staged) (fun h _ => h.step tmpbuf others _)
      (fun h hstays => (h.stays_iff others _).mp hstays) staged_initial
  · exact Run.Along.of_invariant (I := Staged) (fun h _ => h.step tmpbuf others _)
      (fun h htimely => (h.stays_iff others _).mpr htimely) staged_initial

/-- What `dlsym` allocates in the buffer is freed by libc afterwards, and a `realloc` in
`dlsym` goes through `NULL`. -/
theorem bootstrap_strays :
    ¬ Run.Along (step 4096 0) (Stays 0) initial
        [.call (.malloc 8) 65536, .call (.calloc 1 32) 0, .symbol, .symbol, .symbol,
          .call (.free 4096) 0] ∧
      ¬ Run.Along (step 4096 0) (Stays 0) initial
        [.call (.malloc 8) 65536, .call (.realloc 0 32) 0] := by
  constructor
  · rintro ⟨-, -, -, -, -, hfree, -⟩
    have hpointer := (hfree (.free 4096) rfl).2 4096 rfl (by decide) ⟨4096, .staticBufAlloc, 0⟩ rfl
    have hlibc : some Allocator.libc = some Allocator.staticBufAlloc := hpointer
    exact absurd hlibc (by decide)
  · rintro ⟨-, hrealloc, -⟩
    exact (hrealloc (.realloc 0 32) rfl).1 rfl

end BootProcess

end Memhook
