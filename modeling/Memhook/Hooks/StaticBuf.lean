import Mathlib.Data.UInt
import Memhook.Hooks.Bootstrap
import Memhook.Lib.Segments

/-!
# The buffer for the start

`StaticBufAlloc` (`src/memhook/static_buf_alloc.cpp`) hands out `tmpbuf_` from the beginning to
the end: `tmppos_` is where the next block begins.  As long as nothing wraps around, blocks lie
below the position, so they are inside the buffer and apart.

The bound is checked on `tmppos_ + size` modulo `2 ^ 64`, and `calloc` asks for `nmemb * size`
modulo `2 ^ 64`.  A request that wraps to something small is granted: the block is much shorter
than what was asked for, or the position goes back into a block.  `FitsInWord` is the condition
under which that does not happen, and it is exact: a request that wraps is all right only if
what remains of it is refused.

A run keeps the blocks that were handed out, with the sizes that were asked for.
-/

namespace Memhook

def ENOMEM : Int32 := 12

/-- Where `tmpbuf_` is. -/
structure StaticBuf where
  tmpbuf : Address
  notNull : tmpbuf ≠ 0
  fits : tmpbuf.toNat + 8192 ≤ 2 ^ 64

/-- What the functions of `StaticBufAlloc` change. -/
structure StaticBufState where
  tmppos : UInt64
  errno : Int32
  memory : Address → UInt8

/-- `memset` of `count` bytes to zero. -/
def zeroFill (mem : Address) (count : UInt64) (memory : Address → UInt8) : Address → UInt8 :=
  fun address => if address - mem < count then 0 else memory address

inductive BufRequest
  | malloc (size : UInt64)
  | calloc (nmemb size : UInt64)

/-- How many bytes are asked for. -/
def BufRequest.bytes : BufRequest → ℕ
  | malloc size => size.toNat
  | calloc nmemb size => nmemb.toNat * size.toNat

/-- How many bytes `malloc` is asked for. -/
def BufRequest.size : BufRequest → UInt64
  | malloc size => size
  | calloc nmemb size => nmemb * size

theorem BufRequest.toNat_size (request : BufRequest) :
    request.size.toNat = request.bytes % 2 ^ 64 := by
  cases request with
  | malloc size => exact (Nat.mod_eq_of_lt size.toNat_lt).symm
  | calloc nmemb size => exact UInt64.toNat_mul nmemb size

namespace StaticBuf

variable (buf : StaticBuf)

/-- `StaticBufAlloc::malloc`. -/
def malloc (size : UInt64) (state : StaticBufState) : Address × StaticBufState :=
  if state.tmppos + size ≥ 8192 then (0, { state with errno := ENOMEM })
  else (buf.tmpbuf + state.tmppos, { state with tmppos := state.tmppos + size })

/-- `StaticBufAlloc::calloc`. -/
def calloc (nmemb size : UInt64) (state : StaticBufState) : Address × StaticBufState :=
  let totalSize := nmemb * size
  let made := buf.malloc totalSize state
  if made.1 = 0 then made
  else (made.1, { made.2 with memory := zeroFill made.1 totalSize made.2.memory })

def serve (state : StaticBufState) : BufRequest → Address × StaticBufState
  | .malloc size => buf.malloc size state
  | .calloc nmemb size => buf.calloc nmemb size state

/-- It is the allocator of the start: the same block and the same position. -/
theorem malloc_eq (size : UInt64) (state : StaticBufState) :
    ((buf.malloc size state).1, (buf.malloc size state).2.tmppos) =
      StaticBufAlloc.malloc buf.tmpbuf state.tmppos size := by
  unfold malloc StaticBufAlloc.malloc
  split <;> rfl

theorem calloc_eq (nmemb size : UInt64) (state : StaticBufState) :
    ((buf.calloc nmemb size state).1, (buf.calloc nmemb size state).2.tmppos) =
      StaticBufAlloc.calloc buf.tmpbuf state.tmppos nmemb size := by
  rw [StaticBufAlloc.calloc, ← buf.malloc_eq]
  simp only [calloc]
  split <;> rfl

end StaticBuf

/-! ## Runs -/

/-- The allocator, and the blocks it has handed out; the last one comes first. -/
structure StaticBufRun where
  state : StaticBufState
  blocks : List (Segment ℕ)

namespace StaticBufRun

/-- Nothing has been asked for. -/
def initial (errno : Int32) (memory : Address → UInt8) : StaticBufRun := ⟨⟨0, errno, memory⟩, []⟩

section Step

variable (buf : StaticBuf)

/-- The bytes that a request is answered with. -/
def block (run : StaticBufRun) (request : BufRequest) : Segment ℕ :=
  let mem := (buf.serve run.state request).1
  ⟨mem.toNat, mem.toNat + request.bytes⟩

def step (run : StaticBufRun) (request : BufRequest) : StaticBufRun :=
  let served := buf.serve run.state request
  ⟨served.2, if served.1 = 0 then run.blocks else run.block buf request :: run.blocks⟩

/-- What a request should do. -/
structure Proper (run : StaticBufRun) (request : BufRequest) : Prop where
  bounded : (run.step buf request).state.tmppos.toNat ≤ 8192
  monotone : run.state.tmppos ≤ (run.step buf request).state.tmppos
  inside : (buf.serve run.state request).1 ≠ 0 →
    buf.tmpbuf.toNat ≤ (run.block buf request).start ∧
      (run.block buf request).stop ≤ buf.tmpbuf.toNat + 8192
  apart : (buf.serve run.state request).1 ≠ 0 →
    ∀ earlier ∈ run.blocks, ¬ (run.block buf request).Touches earlier
  refused : (buf.serve run.state request).1 = 0 →
    (buf.serve run.state request).2 = { run.state with errno := ENOMEM }

/-- The position and the request fit together in 64 bits, or what remains of them is too
large. -/
def FitsInWord (run : StaticBufRun) (request : BufRequest) : Prop :=
  run.state.tmppos.toNat + request.bytes < 2 ^ 64 ∨
    8192 ≤ (run.state.tmppos.toNat + request.bytes) % 2 ^ 64

/-- The position is in the buffer, and the blocks are below it. -/
structure Packed (run : StaticBufRun) : Prop where
  position : run.state.tmppos.toNat < 8192
  below : ∀ block ∈ run.blocks, buf.tmpbuf.toNat ≤ block.start ∧
    block.stop ≤ buf.tmpbuf.toNat + run.state.tmppos.toNat

end Step

variable {buf : StaticBuf} {run : StaticBufRun} {request : BufRequest}

/-! ## One request -/

theorem toNat_tmppos_add (state : StaticBufState) (request : BufRequest) :
    (state.tmppos + request.size).toNat = (state.tmppos.toNat + request.bytes) % 2 ^ 64 := by
  rw [UInt64.toNat_add, request.toNat_size, Nat.add_mod_mod]

/-- A request is refused or granted by what remains of it. -/
theorem serve_cases (buf : StaticBuf) (state : StaticBufState) (request : BufRequest) :
    8192 ≤ (state.tmppos.toNat + request.bytes) % 2 ^ 64 ∧
        buf.serve state request = (0, { state with errno := ENOMEM }) ∨
      (state.tmppos.toNat + request.bytes) % 2 ^ 64 < 8192 ∧
        (buf.serve state request).1 = buf.tmpbuf + state.tmppos ∧
        (buf.serve state request).2.tmppos = state.tmppos + request.size := by
  have hle : state.tmppos + request.size ≥ 8192 ↔
      8192 ≤ (state.tmppos.toNat + request.bytes) % 2 ^ 64 := by
    rw [← toNat_tmppos_add]
    exact UInt64.le_iff_toNat_le
  by_cases hlarge : state.tmppos + request.size ≥ 8192
  · have hmalloc : buf.malloc request.size state = (0, { state with errno := ENOMEM }) :=
      if_pos hlarge
    refine .inl ⟨hle.mp hlarge, ?_⟩
    cases request with
    | malloc size => exact hmalloc
    | calloc nmemb size =>
        show buf.calloc nmemb size state = _
        rw [StaticBuf.calloc, show buf.malloc (nmemb * size) state = _ from hmalloc]
        rfl
  · have hmalloc : buf.malloc request.size state =
        (buf.tmpbuf + state.tmppos, { state with tmppos := state.tmppos + request.size }) :=
      if_neg hlarge
    refine .inr ⟨not_le.mp (mt hle.mpr hlarge), ?_⟩
    cases request with
    | malloc size =>
        show (buf.malloc size state).1 = _ ∧ (buf.malloc size state).2.tmppos = _
        rw [show buf.malloc size state = _ from hmalloc]
        exact ⟨rfl, rfl⟩
    | calloc nmemb size =>
        show (buf.calloc nmemb size state).1 = _ ∧ (buf.calloc nmemb size state).2.tmppos = _
        rw [StaticBuf.calloc, show buf.malloc (nmemb * size) state = _ from hmalloc]
        simp only
        split <;> exact ⟨rfl, rfl⟩

namespace Packed

theorem toNat_mem (h : run.Packed buf) :
    (buf.tmpbuf + run.state.tmppos).toNat = buf.tmpbuf.toNat + run.state.tmppos.toNat := by
  have hposition := h.position
  have hfits := buf.fits
  rw [UInt64.toNat_add]
  exact Nat.mod_eq_of_lt (by omega)

/-- A block is not `NULL`. -/
theorem mem_ne_null (h : run.Packed buf) : buf.tmpbuf + run.state.tmppos ≠ 0 := by
  intro hnull
  have hmem := h.toNat_mem
  have hpos : buf.tmpbuf.toNat ≠ 0 := fun hzero => buf.notNull (UInt64.toNat_inj.mp hzero)
  rw [hnull] at hmem
  have hzero : (0 : UInt64).toNat = 0 := rfl
  omega

/-- A request that is refused, or one that is granted and fits. -/
theorem cases_of_fits (h : run.Packed buf) (hfits : run.FitsInWord request) :
    buf.serve run.state request = (0, { run.state with errno := ENOMEM }) ∨
      (buf.serve run.state request).1 ≠ 0 ∧
        run.block buf request = ⟨buf.tmpbuf.toNat + run.state.tmppos.toNat,
          buf.tmpbuf.toNat + (run.state.tmppos.toNat + request.bytes)⟩ ∧
        (buf.serve run.state request).2.tmppos.toNat =
          run.state.tmppos.toNat + request.bytes ∧
        run.state.tmppos.toNat + request.bytes < 8192 := by
  rcases serve_cases buf run.state request with ⟨-, hrefused⟩ | ⟨hsmall, hmem, htmppos⟩
  · exact .inl hrefused
  · have hwhole : run.state.tmppos.toNat + request.bytes < 2 ^ 64 :=
      hfits.resolve_right (not_le.mpr hsmall)
    rw [Nat.mod_eq_of_lt hwhole] at hsmall
    refine .inr ⟨hmem ▸ h.mem_ne_null, ?_, ?_, hsmall⟩
    · rw [block, hmem, h.toNat_mem, Nat.add_assoc]
    · rw [htmppos, toNat_tmppos_add, Nat.mod_eq_of_lt hwhole]

theorem proper_of_fits (h : run.Packed buf) (hfits : run.FitsInWord request) :
    run.Proper buf request := by
  have hposition := h.position
  rcases h.cases_of_fits hfits with hrefused | ⟨hmem, hblock, htmppos, hsmall⟩
  · have hstate : (run.step buf request).state = { run.state with errno := ENOMEM } := by
      rw [step, hrefused]
    refine ⟨?_, ?_, ?_, ?_, fun _ => by rw [hrefused]⟩
    · rw [hstate]
      exact hposition.le
    · rw [hstate]
      exact UInt64.le_refl _
    · exact fun hmem => absurd (by rw [hrefused]) hmem
    · exact fun hmem => absurd (by rw [hrefused]) hmem
  · have hstate : (run.step buf request).state.tmppos.toNat =
        run.state.tmppos.toNat + request.bytes := htmppos
    refine ⟨?_, ?_, fun _ => ?_, fun _ => ?_, fun hnull => absurd hnull hmem⟩
    · omega
    · rw [UInt64.le_iff_toNat_le]
      omega
    · rw [hblock]
      exact ⟨Nat.le_add_right _ _, Nat.add_le_add_left hsmall.le _⟩
    · -- earlier blocks end where this one begins
      intro earlier hearlier htouches
      obtain ⟨x, hx, hxearlier⟩ := htouches.exists_mem
      rw [hblock] at hx
      have hbelow := (h.below earlier hearlier).2
      have hstart := hx.1
      have hstop := hxearlier.2
      simp only at hstart
      omega

theorem fits_of_proper (h : run.Packed buf) (hproper : run.Proper buf request) :
    run.FitsInWord request := by
  rcases serve_cases buf run.state request with ⟨hlarge, -⟩ | ⟨-, hmem, -⟩
  · exact .inr hlarge
  · refine .inl ?_
    have hinside := (hproper.inside (hmem ▸ h.mem_ne_null)).2
    rw [block, hmem, h.toNat_mem] at hinside
    simp only at hinside
    omega

theorem step (h : run.Packed buf) (hfits : run.FitsInWord request) :
    (run.step buf request).Packed buf := by
  have hposition := h.position
  rcases h.cases_of_fits hfits with hrefused | ⟨hmem, hblock, htmppos, hsmall⟩
  · unfold StaticBufRun.step
    rw [hrefused]
    exact ⟨h.position, h.below⟩
  · refine ⟨htmppos.trans_lt hsmall, ?_⟩
    simp only [StaticBufRun.step, if_neg hmem, htmppos]
    intro other hother
    rcases List.mem_cons.mp hother with rfl | hother
    · rw [hblock]
      exact ⟨Nat.le_add_right _ _, Nat.le_refl _⟩
    · obtain ⟨hstart, hstop⟩ := h.below other hother
      exact ⟨hstart, by omega⟩

end Packed

theorem packed_initial (buf : StaticBuf) (errno : Int32) (memory : Address → UInt8) :
    (initial errno memory).Packed buf :=
  ⟨show 0 < 8192 by decide, fun _ hblock => absurd hblock List.not_mem_nil⟩

/-- **Blocks of the buffer.**  In a run of requests the position stays in the buffer and never
goes back, every block lies in the buffer and apart from the earlier ones, and a request that
is refused changes nothing but `errno`, if and only if no request wraps around to one that is
granted. -/
theorem staticBuf_proper_iff (buf : StaticBuf) (errno : Int32) (memory : Address → UInt8)
    (requests : List BufRequest) :
    Run.Along (step buf) (Proper buf) (initial errno memory) requests ↔
      Run.Along (step buf) FitsInWord (initial errno memory) requests := by
  have hinitial := packed_initial buf errno memory
  constructor
  · exact Run.Along.of_invariant (I := Packed buf)
      (fun h hproper => h.step (h.fits_of_proper hproper))
      (fun h hproper => h.fits_of_proper hproper) hinitial
  · exact Run.Along.of_invariant (I := Packed buf) (fun h hfits => h.step hfits)
      (fun h hfits => h.proper_of_fits hfits) hinitial

/-- A buffer at 4096. -/
def sampleBuf : StaticBuf := ⟨4096, by decide, by decide⟩

/-- After `malloc(16)`, a request for `2 ^ 64 - 8` bytes takes the position back to 8; and a
`calloc` of `2 ^ 32` times `2 ^ 32` bytes gets a block of none. -/
theorem staticBuf_wraps :
    ¬ Run.Along (step sampleBuf) (Proper sampleBuf) (initial 0 fun _ => 0)
        [.malloc 16, .malloc (-8)] ∧
      ¬ Run.Along (step sampleBuf) (Proper sampleBuf) (initial 0 fun _ => 0)
        [.calloc (2 ^ 32) (2 ^ 32)] := by
  constructor
  · rintro ⟨-, hback, -⟩
    exact absurd hback.monotone (by decide)
  · rintro ⟨hlarge, -⟩
    exact absurd (hlarge.inside (by decide)).2 (by decide)

end StaticBufRun

end Memhook
