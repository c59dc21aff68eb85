import Mathlib.Data.PNat.Defs
import Memhook.Hooks.Hooks
import Memhook.Lib.Segments

/-!
# Mapped bytes

The engine knows a mapping by its start address and its size.  The kernel unmaps any pages
of it: `munmap` takes a range that may be the head, the middle or the tail of a mapping, or
lie over several ones, and `memhook_munmap` passes on the start of the range only.

Here the mappings are segments of bytes, the ones that were asked for; what lies behind them
in their last page belongs to nobody, but goes with that page.  The bytes of the mappings are
the bytes of the records as long as every `munmap` takes whole mappings from its own address
on, and no longer: the first one that does not leaves mapped bytes without a record, or a
record of unmapped bytes.  The same happens with `MREMAP_DONTUNMAP`, where the old pages stay
and their record goes.
-/

namespace Memhook

open TwoLevel

def MREMAP_DONTUNMAP : UInt32 := 4

/-! ## Pages -/

/-- The bytes from `addr` on that a call speaks about. -/
def extent (addr : Address) (length : UInt64) : Segment ℕ :=
  ⟨addr.toNat, addr.toNat + length.toNat⟩

section Pages

variable (pageSize : ℕ+)

/-- The kernel's `PAGE_ALIGN`. -/
def pageAlign (length : UInt64) : ℕ := (length.toNat + pageSize - 1) / pageSize * pageSize

/-- The pages that hold these bytes. -/
def pages (addr : Address) (length : UInt64) : Segment ℕ :=
  ⟨addr.toNat, addr.toNat + pageAlign pageSize length⟩

theorem le_pageAlign (length : UInt64) : length.toNat ≤ pageAlign pageSize length := by
  have hpos : 0 < (pageSize : ℕ) := pageSize.2
  have hdiv := Nat.div_add_mod' (length.toNat + pageSize - 1) pageSize
  have hmod := Nat.mod_lt (length.toNat + pageSize - 1) hpos
  unfold pageAlign
  omega

theorem extent_nonempty {length : UInt64} (hlength : length ≠ 0) (addr : Address) :
    (extent addr length).Nonempty := by
  have hpos : length.toNat ≠ 0 := fun h => hlength (UInt64.toNat_inj.mp h)
  exact Nat.lt_add_of_pos_right (Nat.pos_of_ne_zero hpos)

theorem pages_nonempty {length : UInt64} (hlength : length ≠ 0) (addr : Address) :
    (pages pageSize addr length).Nonempty :=
  (extent_nonempty hlength addr).trans_le (Nat.add_le_add_left (le_pageAlign pageSize length) _)

/-- Whoever meets the bytes meets the pages. -/
theorem touches_pages {segment : Segment ℕ} {addr : Address} {length : UInt64}
    (h : segment.Touches (extent addr length)) : segment.Touches (pages pageSize addr length) :=
  h.extend (Nat.add_le_add_left (le_pageAlign pageSize length) _)

end Pages

/-! ## Calls on mappings -/

/-- The mappings of a process. -/
abbrev Mappings := List (Segment ℕ)

/-- No mapping has a byte there. -/
def Mappings.Free (mappings : Mappings) (range : Segment ℕ) : Prop :=
  ∀ mapping ∈ mappings, ¬ mapping.Touches range

instance (mappings : Mappings) (range : Segment ℕ) : Decidable (mappings.Free range) :=
  inferInstanceAs (Decidable (∀ mapping ∈ mappings, _))

namespace HookCall

variable (pageSize : ℕ+)

/-- The mappings after the call. -/
def mappingsAfter (mappings : Mappings) : HookCall → Mappings
  | mmap _ length flags _ mem | mmap64 _ length flags _ mem =>
      if mem = MAP_FAILED then mappings
      else
        let others :=
          if flags &&& MAP_FIXED ≠ 0 then Segment.cutAll (pages pageSize mem length) mappings
          else mappings
        extent mem length :: others
  | munmap addr length rs =>
      if rs = 0 then Segment.cutAll (pages pageSize addr length) mappings else mappings
  | mremap addr oldLen newLen flags newAddr =>
      if newAddr = MAP_FAILED then mappings
      else
        let others :=
          if flags &&& MREMAP_DONTUNMAP ≠ 0 then mappings
          else Segment.cutAll (pages pageSize addr oldLen) mappings
        let others :=
          if flags &&& MREMAP_FIXED ≠ 0 then
            Segment.cutAll (pages pageSize newAddr newLen) others
          else others
        extent newAddr newLen :: others
  | _ => mappings

/-- A private anonymous `mmap` that succeeds, a `munmap` of any pages, an `mremap` of one
whole mapping. -/
def IsMapping (mappings : Mappings) : HookCall → Prop
  | mmap _ _ flags fd mem | mmap64 _ _ flags fd mem =>
      fd = -1 ∧ flags &&& (MAP_ANONYMOUS ||| MAP_PRIVATE) = MAP_ANONYMOUS ||| MAP_PRIVATE ∧
        flags &&& MAP_STACK = 0 ∧ flags &&& MAP_FIXED = 0 ∧ mem ≠ MAP_FAILED
  | munmap addr _ _ => (pageSize : ℕ) ∣ addr.toNat
  | mremap addr oldLen _ _ newAddr => newAddr ≠ MAP_FAILED →
      (∃ mapping ∈ mappings, mapping.start = addr.toNat) ∧
        (pages pageSize addr oldLen).Whole mappings
  | _ => False

/-- What the kernel guarantees about a call that succeeds.  A mapping is placed on free
pages; `MREMAP_FIXED` may place it on other mappings, but not on the one that moves. -/
def PossibleMapping (mappings : Mappings) : HookCall → Prop
  | mmap _ length _ _ mem | mmap64 _ length _ _ mem =>
      length ≠ 0 ∧ mem ≠ 0 ∧ (pageSize : ℕ) ∣ mem.toNat ∧ mappings.Free (pages pageSize mem length)
  | munmap _ length rs => rs = 0 → length ≠ 0
  | mremap addr oldLen newLen flags newAddr => newAddr ≠ MAP_FAILED →
      oldLen ≠ 0 ∧ newLen ≠ 0 ∧ newAddr ≠ 0 ∧ (pageSize : ℕ) ∣ newAddr.toNat ∧
        if newAddr = addr then
          flags &&& MREMAP_FIXED = 0 ∧ flags &&& MREMAP_DONTUNMAP = 0 ∧
            ∀ mapping ∈ mappings, mapping.Touches (pages pageSize newAddr newLen) →
              mapping.start = addr.toNat
        else
          ¬ (pages pageSize addr oldLen).Touches (pages pageSize newAddr newLen) ∧
            (flags &&& MREMAP_FIXED = 0 → mappings.Free (pages pageSize newAddr newLen))
  | _ => True

/-- `MREMAP_FIXED` takes nothing away. -/
def FreeTarget (mappings : Mappings) : HookCall → Prop
  | mremap _ _ newLen flags newAddr => newAddr ≠ MAP_FAILED → flags &&& MREMAP_FIXED ≠ 0 →
      mappings.Free (pages pageSize newAddr newLen)
  | _ => True

/-- What is unmapped are whole mappings, from the address of the call on, and what moves
leaves no pages behind. -/
def Exact (mappings : Mappings) : HookCall → Prop
  | munmap addr length rs => rs = 0 → (pages pageSize addr length).Whole mappings
  | mremap _ _ _ flags newAddr => newAddr ≠ MAP_FAILED → flags &&& MREMAP_DONTUNMAP = 0
  | _ => True

instance (mappings : Mappings) : DecidablePred (IsMapping pageSize mappings)
  | mmap .. | mmap64 .. => inferInstanceAs (Decidable (_ ∧ _))
  | munmap .. => inferInstanceAs (Decidable (_ ∣ _))
  | mremap .. => inferInstanceAs (Decidable (_ → _))
  | malloc .. | calloc .. | memalign .. | alignedAlloc .. | valloc .. | pvalloc .. | cppNew ..
  | posixMemalign .. | realloc .. | free _ | cfree _ | cppDelete _ => isFalse id

instance (mappings : Mappings) : DecidablePred (PossibleMapping pageSize mappings)
  | mmap .. | mmap64 .. => inferInstanceAs (Decidable (_ ∧ _))
  | munmap .. | mremap .. => inferInstanceAs (Decidable (_ → _))
  | malloc .. | calloc .. | memalign .. | alignedAlloc .. | valloc .. | pvalloc .. | cppNew ..
  | posixMemalign .. | realloc .. | free _ | cfree _ | cppDelete _ => isTrue trivial

instance (mappings : Mappings) : DecidablePred (FreeTarget pageSize mappings)
  | mremap .. => inferInstanceAs (Decidable (_ → _))
  | malloc .. | calloc .. | memalign .. | alignedAlloc .. | valloc .. | pvalloc .. | cppNew ..
  | posixMemalign .. | mmap .. | mmap64 .. | realloc .. | free _ | cfree _ | cppDelete _
  | munmap .. => isTrue trivial

instance (mappings : Mappings) : DecidablePred (Exact pageSize mappings)
  | munmap .. | mremap .. => inferInstanceAs (Decidable (_ → _))
  | malloc .. | calloc .. | memalign .. | alignedAlloc .. | valloc .. | pvalloc .. | cppNew ..
  | posixMemalign .. | mmap .. | mmap64 .. | realloc .. | free _ | cfree _ | cppDelete _ =>
      isTrue trivial

end HookCall

/-! ## Records against mappings -/

/-- The bytes of the records are the bytes of the mappings. -/
def RecordMap.Accounts (m : RecordMap) (mappings : Mappings) : Prop :=
  ∀ byte, (∃ mapping ∈ mappings, byte ∈ mapping) ↔
    ∃ address record, m address = some record ∧ byte ∈ extent address record.memsize

/-- There is one record for each mapping, and nothing else. -/
structure Matches (m : RecordMap) (mappings : Mappings) : Prop where
  null : m 0 = none
  nonempty : ∀ mapping ∈ mappings, mapping.Nonempty
  apart : Segment.Apart mappings
  recorded : ∀ mapping, mapping ∈ mappings ↔
    ∃ address record, m address = some record ∧ mapping = extent address record.memsize

namespace Matches

variable {pageSize : ℕ+} {m : RecordMap} {mappings : Mappings}

theorem accounts (h : Matches m mappings) : m.Accounts mappings := by
  intro byte
  constructor
  · rintro ⟨mapping, hmapping, hbyte⟩
    obtain ⟨address, record, hrecord, rfl⟩ := (h.recorded mapping).mp hmapping
    exact ⟨address, record, hrecord, hbyte⟩
  · rintro ⟨address, record, hrecord, hbyte⟩
    exact ⟨_, (h.recorded _).mpr ⟨address, record, hrecord, rfl⟩, hbyte⟩

theorem congr (h : Matches m mappings) {mappings' : Mappings}
    (hmem : ∀ mapping, mapping ∈ mappings' ↔ mapping ∈ mappings) : Matches m mappings' :=
  ⟨h.null, fun mapping hmapping => h.nonempty mapping ((hmem mapping).mp hmapping),
    h.apart.mono fun mapping hmapping => (hmem mapping).mp hmapping,
    fun mapping => (hmem mapping).trans (h.recorded mapping)⟩

/-- The record of a mapping is found under its start. -/
theorem exists_record (h : Matches m mappings) {mapping : Segment ℕ} (hmapping : mapping ∈ mappings)
    {addr : Address} (hstart : mapping.start = addr.toNat) :
    ∃ record, m addr = some record ∧ mapping = extent addr record.memsize := by
  obtain ⟨address, record, hrecord, rfl⟩ := (h.recorded mapping).mp hmapping
  obtain rfl : address = addr := UInt64.toNat_inj.mp hstart
  exact ⟨record, hrecord, rfl⟩

/-- Free pages start with an address that is not recorded. -/
theorem eq_none (h : Matches m mappings) {mem : Address} {length : UInt64} (hlength : length ≠ 0)
    (hfree : mappings.Free (pages pageSize mem length)) : m mem = none := by
  by_contra hsome
  obtain ⟨record, hrecord⟩ := Option.ne_none_iff_exists'.mp hsome
  have hmapping := (h.recorded _).mpr ⟨mem, record, hrecord, rfl⟩
  exact hfree _ hmapping (.of_mem (Segment.start_mem (h.nonempty _ hmapping))
    (Segment.start_mem (pages_nonempty pageSize hlength mem)))

theorem announce (h : Matches m mappings) {mem : Address} (hmem : mem ≠ 0) {record : Record}
    (hlength : record.memsize ≠ 0) (hnone : m mem = none)
    (hfree : mappings.Free (extent mem record.memsize)) :
    Matches (m.alloc mem record) (extent mem record.memsize :: mappings) := by
  unfold RecordMap.alloc
  rw [if_neg hmem]
  refine ⟨?_, ?_, h.apart.cons hfree, ?_⟩
  · rw [Function.update_of_ne (Ne.symm hmem)]
    exact h.null
  · exact List.forall_mem_cons.mpr ⟨extent_nonempty hlength mem, h.nonempty⟩
  · intro mapping
    rw [List.mem_cons, h.recorded]
    constructor
    · rintro (rfl | ⟨address, other, hother, rfl⟩)
      · exact ⟨mem, record, Function.update_self .., rfl⟩
      · have hne : address ≠ mem := by
          rintro rfl
          simp [hnone] at hother
        exact ⟨address, other, by rwa [Function.update_of_ne hne], rfl⟩
    · rintro ⟨address, other, hother, rfl⟩
      by_cases heq : address = mem
      · subst heq
        rw [Function.update_self, Option.some.injEq] at hother
        exact .inl (hother ▸ rfl)
      · rw [Function.update_of_ne heq] at hother
        exact .inr ⟨address, other, hother, rfl⟩

/-- The records that `DoHookFree` leaves. -/
theorem free_eq_some_iff (h : Matches m mappings) {addr address : Address} {record : Record} :
    m.free addr address = some record ↔ m address = some record ∧ address ≠ addr := by
  unfold RecordMap.free
  split
  next hnull =>
    refine ⟨fun hrecord => ⟨hrecord, ?_⟩, And.left⟩
    rintro rfl
    rw [hnull, h.null] at hrecord
    simp at hrecord
  next =>
    by_cases heq : address = addr
    · simp [heq]
    · simp [heq]

theorem remove (h : Matches m mappings) {addr : Address} {length : UInt64} (hlength : length ≠ 0)
    (hwhole : (pages pageSize addr length).Whole mappings) :
    Matches (m.free addr) (Segment.cutAll (pages pageSize addr length) mappings) := by
  have hmem : ∀ mapping, mapping ∈ Segment.cutAll (pages pageSize addr length) mappings ↔
      mapping ∈ mappings ∧ mapping.start ≠ addr.toNat := fun mapping =>
    Segment.mem_cutAll_of_whole (pages_nonempty pageSize hlength addr) h.nonempty hwhole
  refine ⟨?_, ?_, ?_, ?_⟩
  · rw [← Option.not_isSome_iff_eq_none, Option.isSome_iff_exists]
    rintro ⟨record, hrecord⟩
    have hnull := (h.free_eq_some_iff.mp hrecord).1
    simp [h.null] at hnull
  · exact fun mapping hmapping => h.nonempty mapping ((hmem mapping).mp hmapping).1
  · exact h.apart.mono fun mapping hmapping => ((hmem mapping).mp hmapping).1
  · intro mapping
    rw [hmem, h.recorded]
    constructor
    · rintro ⟨⟨address, record, hrecord, rfl⟩, hstart⟩
      refine ⟨address, record, h.free_eq_some_iff.mpr ⟨hrecord, ?_⟩, rfl⟩
      exact fun heq => hstart (congrArg UInt64.toNat heq)
    · rintro ⟨address, record, hrecord, rfl⟩
      obtain ⟨hrecord, hne⟩ := h.free_eq_some_iff.mp hrecord
      exact ⟨⟨address, record, hrecord, rfl⟩, fun hstart => hne (UInt64.toNat_inj.mp hstart)⟩

/-- Taking free pages away changes nothing. -/
theorem mem_fixed_iff (h : Matches m mappings) {addr : Address} {length : UInt64}
    (hlength : length ≠ 0) (hfree : mappings.Free (pages pageSize addr length)) (flags : UInt32)
    (mapping : Segment ℕ) :
    (mapping ∈ if flags &&& MREMAP_FIXED ≠ 0 then Segment.cutAll (pages pageSize addr length)
      mappings else mappings) ↔ mapping ∈ mappings := by
  split
  · rw [Segment.mem_cutAll_of_whole (pages_nonempty pageSize hlength addr) h.nonempty
      (Segment.whole_of_not_touches hfree)]
    refine ⟨And.left, fun hmapping => ⟨hmapping, fun hstart => ?_⟩⟩
    refine hfree mapping hmapping (.of_mem (Segment.start_mem (h.nonempty mapping hmapping)) ?_)
    rw [hstart]
    exact Segment.start_mem (pages_nonempty pageSize hlength addr)
  · exact Iff.rfl

/-- Two records of one byte are one record. -/
theorem address_eq (h : Matches m mappings) {address other : Address} {record record' : Record}
    (hrecord : m address = some record) (hother : m other = some record') {byte : ℕ}
    (hbyte : byte ∈ extent address record.memsize) (hbyte' : byte ∈ extent other record'.memsize) :
    address = other := by
  have heq := h.apart _ ((h.recorded _).mpr ⟨address, record, hrecord, rfl⟩)
    _ ((h.recorded _).mpr ⟨other, record', hother, rfl⟩) (.of_mem hbyte hbyte')
  exact UInt64.toNat_inj.mp (congrArg Segment.start heq)

end Matches

/-! ## One call -/

namespace HookCall

variable {R : Type*} {pageSize : ℕ+} {m : RecordMap} {mappings : Mappings}

/-- `mmap` and `mmap64`, which record a private anonymous mapping both. -/
theorem step_matches_mmap (h : Matches m mappings) (ctx : Context R) {mem : Address}
    {length : UInt64} (hlength : length ≠ 0) (hmem : mem ≠ 0)
    (hfree : mappings.Free (pages pageSize mem length)) :
    (EngineOp.alloc ctx mem length).Admissible m ∧
      Matches ((EngineOp.alloc ctx mem length).applyMap m) (extent mem length :: mappings) := by
  have hnone : m mem = none := h.eq_none hlength hfree
  have hextent : mappings.Free (extent mem (ctx.announced length).memsize) :=
    fun mapping hmapping htouches => hfree mapping hmapping (touches_pages pageSize htouches)
  exact ⟨fun _ => hnone, h.announce hmem hlength hnone hextent⟩

theorem mmapRecords_of_anonymous {flags : UInt32} {fd : ℤ} (hfd : fd = -1)
    (hstack : flags &&& MAP_STACK = 0) : mmapRecords flags fd = true := by
  simp [mmapRecords, hfd, hstack]

theorem mmap64Records_of_anonymous {flags : UInt32} {fd : ℤ} (hfd : fd = -1)
    (hflags : flags &&& (MAP_ANONYMOUS ||| MAP_PRIVATE) = MAP_ANONYMOUS ||| MAP_PRIVATE) :
    mmap64Records flags fd = true := by
  simp [mmap64Records, hfd, hflags]

/-- Where an `mremap` moves a mapping to, if it does. -/
theorem free_target {addr newAddr : Address} {oldLen newLen : UInt64} {flags : UInt32}
    (hok : newAddr ≠ MAP_FAILED) (hne : newAddr ≠ addr)
    (hpossible : (mremap addr oldLen newLen flags newAddr).PossibleMapping pageSize mappings)
    (htarget : (mremap addr oldLen newLen flags newAddr).FreeTarget pageSize mappings) :
    mappings.Free (pages pageSize newAddr newLen) := by
  obtain ⟨-, -, -, -, hplace⟩ := hpossible hok
  rw [if_neg hne] at hplace
  by_cases hfixed : flags &&& MREMAP_FIXED = 0
  · exact hplace.2 hfixed
  · exact htarget hok hfixed

theorem admissible_mremap (h : Matches m mappings) (ctx : Context R) {addr newAddr : Address}
    {oldLen newLen : UInt64} {flags : UInt32} (hok : newAddr ≠ MAP_FAILED)
    (hpossible : (mremap addr oldLen newLen flags newAddr).PossibleMapping pageSize mappings)
    (htarget : (mremap addr oldLen newLen flags newAddr).FreeTarget pageSize mappings) :
    (EngineOp.realloc ctx addr newAddr newLen).Admissible m :=
  fun _ hne => h.eq_none (hpossible hok).2.1 (free_target hok hne hpossible htarget)

/-- A mapping that grows or shrinks in place is as good as a new one. -/
theorem updateSize_eq_alloc_free {addr : Address} {record : Record}
    (hrecord : m addr = some record) (haddr : addr ≠ 0) (size : UInt64) :
    m.updateSize addr size = (m.free addr).alloc addr (record.resize size) := by
  simp [RecordMap.updateSize, RecordMap.alloc, RecordMap.free, haddr, hrecord]

theorem step_matches_mremap (h : Matches m mappings) (ctx : Context R) {addr newAddr : Address}
    {oldLen newLen : UInt64} {flags : UInt32} (hok : newAddr ≠ MAP_FAILED)
    (hmapping : (mremap addr oldLen newLen flags newAddr).IsMapping pageSize mappings)
    (hpossible : (mremap addr oldLen newLen flags newAddr).PossibleMapping pageSize mappings)
    (htarget : (mremap addr oldLen newLen flags newAddr).FreeTarget pageSize mappings)
    (hunmap : flags &&& MREMAP_DONTUNMAP = 0) :
    Matches ((EngineOp.realloc ctx addr newAddr newLen).applyMap m)
      ((mremap addr oldLen newLen flags newAddr).mappingsAfter pageSize mappings) := by
  obtain ⟨⟨mapping, hmem, hstart⟩, hwhole⟩ := hmapping hok
  obtain ⟨holdLen, hnewLen, hnewAddr, -, hplace⟩ := hpossible hok
  have hremoved := h.remove holdLen hwhole
  have hkept : ∀ other ∈ Segment.cutAll (pages pageSize addr oldLen) mappings,
      other ∈ mappings ∧ other.start ≠ addr.toNat := fun other hother =>
    (Segment.mem_cutAll_of_whole (pages_nonempty pageSize holdLen addr) h.nonempty hwhole).mp hother
  simp only [EngineOp.applyMap, RecordMap.realloc, mappingsAfter, if_neg hok, hunmap, ne_eq,
    not_true, if_false]
  by_cases heq : addr = newAddr
  · -- in place, where only the mapping itself can be in the way
    subst heq
    rw [if_pos rfl] at hplace
    obtain ⟨hfixed, -, hgrow⟩ := hplace
    obtain ⟨record, hrecord, -⟩ := h.exists_record hmem hstart
    rw [if_pos rfl, updateSize_eq_alloc_free hrecord hnewAddr, if_neg (not_not.mpr hfixed)]
    refine hremoved.announce hnewAddr hnewLen ?_ ?_
    · simp [RecordMap.free, hnewAddr]
    · intro other hother htouches
      obtain ⟨hother, hne⟩ := hkept other hother
      exact hne (hgrow other hother (touches_pages pageSize htouches))
  · have hfree := free_target hok (Ne.symm heq) hpossible htarget
    have hfree' : Mappings.Free (Segment.cutAll (pages pageSize addr oldLen) mappings)
        (pages pageSize newAddr newLen) := fun other hother => hfree other (hkept other hother).1
    have hmem' := hremoved.mem_fixed_iff hnewLen hfree' flags
    rw [if_neg heq]
    exact (step_matches_mmap (hremoved.congr hmem') ctx hnewLen hnewAddr
      fun other hother => hfree' other ((hmem' other).mp hother)).2

/-- One call that is exact keeps records and mappings the same. -/
theorem step_matches (h : Matches m mappings) (ctx : Context R) {call : HookCall}
    (hmapping : call.IsMapping pageSize mappings)
    (hpossible : call.PossibleMapping pageSize mappings)
    (htarget : call.FreeTarget pageSize mappings) (hexact : call.Exact pageSize mappings) :
    Matches ((call.engineOp ctx).applyMap m) (call.mappingsAfter pageSize mappings) := by
  cases call with
  | mmap addr length flags fd mem =>
      obtain ⟨hfd, -, hstack, hfixed, hok⟩ := hmapping
      obtain ⟨hlength, hmem, -, hfree⟩ := hpossible
      simp only [engineOp, mappingsAfter, mmapRecords_of_anonymous hfd hstack, if_true,
        if_neg hok, hfixed, ne_eq, not_true, if_false]
      exact (step_matches_mmap h ctx hlength hmem hfree).2
  | mmap64 addr length flags fd mem =>
      obtain ⟨hfd, hflags, -, hfixed, hok⟩ := hmapping
      obtain ⟨hlength, hmem, -, hfree⟩ := hpossible
      simp only [engineOp, mappingsAfter, mmap64Records_of_anonymous hfd hflags, if_true,
        if_neg hok, hfixed, ne_eq, not_true, if_false]
      exact (step_matches_mmap h ctx hlength hmem hfree).2
  | munmap addr length rs =>
      simp only [engineOp, mappingsAfter, EngineOp.applyMap]
      by_cases hrs : rs = 0
      · rw [if_pos hrs, if_pos hrs]
        exact h.remove (hpossible hrs) (hexact hrs)
      · rwa [if_neg hrs, if_neg hrs, RecordMap.free, if_pos rfl]
  | mremap addr oldLen newLen flags newAddr =>
      by_cases hok : newAddr = MAP_FAILED
      · simpa [engineOp, mappingsAfter, EngineOp.applyMap, RecordMap.free, hok] using h
      · rw [engineOp, if_pos hok]
        exact step_matches_mremap h ctx hok hmapping hpossible htarget (hexact hok)
  | _ => exact hmapping.elim

theorem admissible_of_matches (h : Matches m mappings) (ctx : Context R) {call : HookCall}
    (hmapping : call.IsMapping pageSize mappings)
    (hpossible : call.PossibleMapping pageSize mappings)
    (htarget : call.FreeTarget pageSize mappings) : (call.engineOp ctx).Admissible m := by
  cases call with
  | mmap addr length flags fd mem =>
      obtain ⟨hfd, -, hstack, -, -⟩ := hmapping
      rw [engineOp, mmapRecords_of_anonymous hfd hstack]
      exact fun _ => h.eq_none hpossible.1 hpossible.2.2.2
  | mmap64 addr length flags fd mem =>
      obtain ⟨hfd, hflags, -, -, -⟩ := hmapping
      rw [engineOp, mmap64Records_of_anonymous hfd hflags]
      exact fun _ => h.eq_none hpossible.1 hpossible.2.2.2
  | munmap addr length rs => exact trivial
  | mremap addr oldLen newLen flags newAddr =>
      by_cases hok : newAddr = MAP_FAILED
      · rw [engineOp, if_neg (not_not.mpr hok)]
        exact trivial
      · rw [engineOp, if_pos hok]
        exact admissible_mremap h ctx hok hpossible htarget
  | _ => exact hmapping.elim

/-! ## The calls that go wrong -/

/-- Unmapping a part of a mapping, or a mapping behind the address of the call. -/
theorem breaks_munmap (h : Matches m mappings) {addr : Address} {length : UInt64}
    (hpart : ¬ (pages pageSize addr length).Whole mappings) :
    ¬ (m.free addr).Accounts (Segment.cutAll (pages pageSize addr length) mappings) := by
  intro haccounts
  simp only [Segment.Whole, not_forall] at hpart
  obtain ⟨mapping, hmapping, htouches, hpart⟩ := hpart
  by_cases hstart : mapping.start = addr.toNat
  · -- the first byte behind the range is mapped, but its record is gone
    have hstop : (pages pageSize addr length).stop < mapping.stop := by
      by_contra hle
      exact hpart ⟨hstart, not_lt.mp hle⟩
    obtain ⟨record, hrecord, hextent⟩ := h.exists_record hmapping hstart
    have hbyte : (pages pageSize addr length).stop ∈ mapping := by
      refine ⟨?_, hstop⟩
      rw [hstart]
      exact Nat.le_add_right _ _
    obtain ⟨address, other, hother, hcovered⟩ := (haccounts _).mp (Segment.exists_mem_cutAll.mpr
      ⟨⟨mapping, hmapping, hbyte⟩, fun hin => absurd hin.2 (lt_irrefl _)⟩)
    obtain ⟨hother, hne⟩ := h.free_eq_some_iff.mp hother
    exact hne (h.address_eq hother hrecord hcovered (hextent ▸ hbyte))
  · -- a common byte is unmapped, but its record stays
    obtain ⟨byte, hbyte, hhole⟩ := htouches.exists_mem
    obtain ⟨address, record, hrecord, rfl⟩ := (h.recorded mapping).mp hmapping
    have hkept : m.free addr address = some record :=
      h.free_eq_some_iff.mpr ⟨hrecord, fun heq => hstart (congrArg UInt64.toNat heq)⟩
    have hmapped := (haccounts byte).mpr ⟨address, record, hkept, hbyte⟩
    exact (Segment.exists_mem_cutAll.mp hmapped).2 hhole

/-- Moving a mapping without unmapping it. -/
theorem breaks_mremap (h : Matches m mappings) (ctx : Context R) {addr newAddr : Address}
    {oldLen newLen : UInt64} {flags : UInt32} (hok : newAddr ≠ MAP_FAILED)
    (hmapping : (mremap addr oldLen newLen flags newAddr).IsMapping pageSize mappings)
    (hpossible : (mremap addr oldLen newLen flags newAddr).PossibleMapping pageSize mappings)
    (htarget : (mremap addr oldLen newLen flags newAddr).FreeTarget pageSize mappings)
    (hkeep : flags &&& MREMAP_DONTUNMAP ≠ 0) :
    ¬ ((EngineOp.realloc ctx addr newAddr newLen).applyMap m).Accounts
      ((mremap addr oldLen newLen flags newAddr).mappingsAfter pageSize mappings) := by
  intro haccounts
  obtain ⟨⟨mapping, hmem, hstart⟩, -⟩ := hmapping hok
  obtain ⟨holdLen, hnewLen, hnewAddr, -, hplace⟩ := hpossible hok
  have hne : newAddr ≠ addr := by
    intro heq
    rw [if_pos heq] at hplace
    exact hkeep hplace.2.1
  rw [if_neg hne] at hplace
  have hmem' := h.mem_fixed_iff hnewLen (free_target hok hne hpossible htarget) flags
  obtain ⟨record, hrecord, rfl⟩ := h.exists_record hmem hstart
  have hbyte : addr.toNat ∈ extent addr record.memsize := Segment.start_mem (h.nonempty _ hmem)
  -- the first byte of the old mapping
  have hmapped : ∃ other ∈ (mremap addr oldLen newLen flags newAddr).mappingsAfter pageSize
      mappings, addr.toNat ∈ other := by
    refine ⟨_, ?_, hbyte⟩
    simp only [mappingsAfter, if_neg hok, if_pos hkeep]
    exact List.mem_cons_of_mem _ ((hmem' _).mpr hmem)
  obtain ⟨address, other, hother, hcovered⟩ := (haccounts _).mp hmapped
  simp only [EngineOp.applyMap, RecordMap.realloc, if_neg (Ne.symm hne), RecordMap.alloc,
    if_neg hnewAddr] at hother
  by_cases heq : address = newAddr
  · subst heq
    rw [Function.update_self, Option.some.injEq] at hother
    subst hother
    refine hplace.1 (.of_mem (Segment.start_mem (pages_nonempty pageSize holdLen addr)) ?_)
    exact ⟨hcovered.1, hcovered.2.trans_le (Nat.add_le_add_left (le_pageAlign pageSize newLen) _)⟩
  · rw [Function.update_of_ne heq] at hother
    obtain ⟨hother, hne'⟩ := h.free_eq_some_iff.mp hother
    exact hne' (h.address_eq hother hrecord hcovered hbyte)

/-- One call that is not exact breaks the account. -/
theorem step_breaks (h : Matches m mappings) (ctx : Context R) {call : HookCall}
    (hmapping : call.IsMapping pageSize mappings)
    (hpossible : call.PossibleMapping pageSize mappings)
    (htarget : call.FreeTarget pageSize mappings) (hexact : ¬ call.Exact pageSize mappings) :
    ¬ ((call.engineOp ctx).applyMap m).Accounts (call.mappingsAfter pageSize mappings) := by
  cases call with
  | munmap addr length rs =>
      obtain ⟨hrs, hpart⟩ := Classical.not_imp.mp hexact
      simp only [engineOp, mappingsAfter, EngineOp.applyMap, if_pos hrs]
      exact breaks_munmap h hpart
  | mremap addr oldLen newLen flags newAddr =>
      obtain ⟨hok, hkeep⟩ := Classical.not_imp.mp hexact
      rw [engineOp, if_pos hok]
      exact breaks_mremap h ctx hok hmapping hpossible htarget hkeep
  | _ => exact absurd trivial hexact

end HookCall

/-! ## Whole runs -/

/-- The record is in the cache or in the storage. -/
def Engine.Holds {U R : Type*} [CallStackUnwinder U R] (engine : Engine U BasicMappedStorage)
    (address : Address) (record : Record) : Prop :=
  (engine.cell address).upper = some record ∨ (engine.cell address).lower = some record

/-- The engine and the mappings of the process. -/
structure MapWorld (U : Type*) where
  engine : Engine U BasicMappedStorage
  mappings : Mappings

namespace MapWorld

variable {U R : Type*} [CallStackUnwinder U R] (pageSize : ℕ+)

def call (world : MapWorld U) (call : Context R × HookCall) : MapWorld U :=
  ⟨call.2.hook call.1 world.engine, call.2.mappingsAfter pageSize world.mappings⟩

def run (world : MapWorld U) (calls : List (Context R × HookCall)) : MapWorld U :=
  calls.foldl (MapWorld.call pageSize) world

/-- A fresh process that has not mapped anything. -/
def initial (withStorage : Bool) (unwinder : U) (timeout : Int64) (maxItems : UInt64)
    (policy : CallStackUnwindProcInfoPolicy) : MapWorld U :=
  ⟨(World.initial withStorage unwinder timeout maxItems policy).engine, []⟩

/-- Every byte of a mapping lies in a record, and no other byte does. -/
def Accounted (world : MapWorld U) : Prop :=
  ∀ byte, (∃ mapping ∈ world.mappings, byte ∈ mapping) ↔
    ∃ address record, world.engine.Holds address record ∧ byte ∈ extent address record.memsize

/-- The calls of the run are calls on mappings, with outcomes that are possible when they are
made, and none of them places a mapping on others. -/
def MapsFrom (mappings : Mappings) (calls : List (Context R × HookCall)) : Prop :=
  Run.Along (fun mappings call => call.2.mappingsAfter pageSize mappings)
    (fun mappings call => call.2.IsMapping pageSize mappings ∧
      call.2.PossibleMapping pageSize mappings ∧ call.2.FreeTarget pageSize mappings)
    mappings calls

/-- Every call of the run is exact when it is made. -/
def ExactFrom (mappings : Mappings) (calls : List (Context R × HookCall)) : Prop :=
  Run.Along (fun mappings call => call.2.mappingsAfter pageSize mappings)
    (fun mappings call => call.2.Exact pageSize mappings) mappings calls

instance (mappings : Mappings) (calls : List (Context R × HookCall)) :
    Decidable (MapsFrom pageSize mappings calls) :=
  inferInstanceAs (Decidable (Run.Along ..))

instance (mappings : Mappings) (calls : List (Context R × HookCall)) :
    Decidable (ExactFrom pageSize mappings calls) :=
  inferInstanceAs (Decidable (Run.Along ..))

/-- The same, seen from the world. -/
theorem MapsFrom.along {pageSize : ℕ+} {world : MapWorld U} {calls : List (Context R × HookCall)}
    (h : MapsFrom pageSize world.mappings calls) :
    Run.Along (MapWorld.call pageSize) (fun world call =>
      call.2.IsMapping pageSize world.mappings ∧ call.2.PossibleMapping pageSize world.mappings ∧
        call.2.FreeTarget pageSize world.mappings) world calls :=
  Run.Along.comap (fun _ _ => rfl) h

theorem along_exact_iff {pageSize : ℕ+} {world : MapWorld U}
    {calls : List (Context R × HookCall)} :
    Run.Along (MapWorld.call pageSize) (fun world call => call.2.Exact pageSize world.mappings)
      world calls ↔ ExactFrom pageSize world.mappings calls :=
  Run.along_comap_iff (P := fun mappings (call : Context R × HookCall) =>
    call.2.Exact pageSize mappings) fun _ _ => rfl

theorem holds_iff {engine : Engine U BasicMappedStorage} {m : RecordMap} (h : engine.Refines m)
    {address : Address} {record : Record} :
    engine.Holds address record ↔ m address = some record := by
  rw [← h.get_eq address]
  exact (h address).1.eq_some_iff

theorem accounted_iff {world : MapWorld U} {m : RecordMap} (h : world.engine.Refines m) :
    world.Accounted ↔ m.Accounts world.mappings := by
  simp only [Accounted, RecordMap.Accounts, holds_iff h]

/-- The engine stands for a map with one record for each mapping. -/
def Tracks (world : MapWorld U) : Prop :=
  ∃ m : RecordMap, world.engine.Refines m ∧ Matches m world.mappings

theorem tracks_initial (withStorage : Bool) (unwinder : U) (timeout : Int64) (maxItems : UInt64)
    (policy : CallStackUnwindProcInfoPolicy) :
    (initial withStorage unwinder timeout maxItems policy).Tracks := by
  refine ⟨_, World.refines_initial withStorage unwinder timeout maxItems policy, rfl, ?_, ?_, ?_⟩
  all_goals simp [initial, Segment.Apart]

section Step

variable {pageSize} {world : MapWorld U} {made : Context R × HookCall}

/-- What the engine stands for after the call. -/
theorem refines_call {m : RecordMap} (hrefines : world.engine.Refines m)
    (hadmissible : (made.2.engineOp made.1).Admissible m) :
    (world.call pageSize made).engine.Refines ((made.2.engineOp made.1).applyMap m) := by
  rw [MapWorld.call, HookCall.hook_eq_engineOp]
  exact hrefines.apply hadmissible

theorem Tracks.call (h : world.Tracks) (hmapping : made.2.IsMapping pageSize world.mappings)
    (hpossible : made.2.PossibleMapping pageSize world.mappings)
    (htarget : made.2.FreeTarget pageSize world.mappings)
    (hexact : made.2.Exact pageSize world.mappings) : (world.call pageSize made).Tracks := by
  obtain ⟨m, hrefines, hmatches⟩ := h
  have hadmissible :=
    HookCall.admissible_of_matches hmatches made.1 hmapping hpossible htarget
  exact ⟨_, refines_call hrefines hadmissible,
    HookCall.step_matches hmatches made.1 hmapping hpossible htarget hexact⟩

theorem Tracks.not_accounted (h : world.Tracks)
    (hmapping : made.2.IsMapping pageSize world.mappings)
    (hpossible : made.2.PossibleMapping pageSize world.mappings)
    (htarget : made.2.FreeTarget pageSize world.mappings)
    (hexact : ¬ made.2.Exact pageSize world.mappings) :
    ¬ (world.call pageSize made).Accounted := by
  obtain ⟨m, hrefines, hmatches⟩ := h
  have hadmissible :=
    HookCall.admissible_of_matches hmatches made.1 hmapping hpossible htarget
  rw [accounted_iff (refines_call hrefines hadmissible)]
  exact HookCall.step_breaks hmatches made.1 hmapping hpossible htarget hexact

theorem Tracks.accounted (h : world.Tracks) : world.Accounted := by
  obtain ⟨m, hrefines, hmatches⟩ := h
  exact (accounted_iff hrefines).mpr hmatches.accounts

end Step

/-- **Mapped memory stays accounted for** exactly in the runs whose calls are exact.  Then in
every state of the run the bytes of the mappings are the bytes of the records; the first call
that is not exact ends that. -/
theorem accounted_iff_exact (withStorage : Bool) (unwinder : U) (timeout : Int64)
    (maxItems : UInt64) (policy : CallStackUnwindProcInfoPolicy)
    (calls : List (Context R × HookCall)) (hmaps : MapsFrom pageSize [] calls) :
    (∀ before, before <+: calls →
      ((initial withStorage unwinder timeout maxItems policy).run pageSize before).Accounted) ↔
        ExactFrom pageSize [] calls := by
  refine (Run.forall_prefix_iff_of_breaks (I := MapWorld.Tracks) (A := MapWorld.Accounted)
    (fun h hcall hexact => h.call hcall.1 hcall.2.1 hcall.2.2 hexact)
    (fun h hcall hexact => h.not_accounted hcall.1 hcall.2.1 hcall.2.2 hexact)
    Tracks.accounted (tracks_initial withStorage unwinder timeout maxItems policy)
    hmaps.along).trans ?_
  exact along_exact_iff

/-- Map twice, grow one mapping in place, move it, unmap it. -/
def wholeCalls : List (Context Resolver × HookCall) :=
  [(⟨1, [], .silent⟩, .mmap 0 8192 (MAP_PRIVATE ||| MAP_ANONYMOUS) (-1) 65536),
    (⟨2, [], .silent⟩, .mmap 0 100 (MAP_PRIVATE ||| MAP_ANONYMOUS) (-1) 131072),
    (⟨3, [], .silent⟩, .mremap 65536 8192 12288 1 65536),
    (⟨4, [], .silent⟩, .mremap 65536 12288 4096 1 262144),
    (⟨5, [], .silent⟩, .munmap 262144 4096 0)]

theorem accounted_iff_exact_wholeCalls :
    MapsFrom 4096 [] wholeCalls ∧ ExactFrom 4096 [] wholeCalls ∧
      ((initial true Impl.Usable.initial 0 8 .kFlushLocalCacheWhen).run 4096
        wholeCalls).Accounted := by
  have hmaps : MapsFrom 4096 [] wholeCalls := by decide
  have hexact : ExactFrom 4096 [] wholeCalls := by decide
  exact ⟨hmaps, hexact, (accounted_iff_exact 4096 true Impl.Usable.initial 0 8
    .kFlushLocalCacheWhen wholeCalls hmaps).mpr hexact wholeCalls (List.prefix_refl _)⟩

/-- The first of two pages is unmapped. -/
def headCalls : List (Context Resolver × HookCall) :=
  [(⟨1, [], .silent⟩, .mmap 0 8192 (MAP_PRIVATE ||| MAP_ANONYMOUS) (-1) 65536),
    (⟨2, [], .silent⟩, .munmap 65536 4096 0)]

/-- The second of two pages is unmapped. -/
def tailCalls : List (Context Resolver × HookCall) :=
  [(⟨1, [], .silent⟩, .mmap 0 8192 (MAP_PRIVATE ||| MAP_ANONYMOUS) (-1) 65536),
    (⟨2, [], .silent⟩, .munmap 69632 4096 0)]

/-- A process whose cache is not flushed during the two calls. -/
abbrev idle : MapWorld Impl.Usable := initial true Impl.Usable.initial 2 8 .kFlushLocalCacheWhen

/-- Without its head, a mapping of which a page is left has no record; without its tail, it
has a record of both pages. -/
theorem partial_munmap_unaccounted :
    MapsFrom 4096 [] headCalls ∧ ¬ (idle.run 4096 headCalls).Accounted ∧
      (idle.run 4096 headCalls).mappings = [⟨69632, 73728⟩] ∧
      (idle.run 4096 headCalls).engine.record? 65536 = none ∧
    MapsFrom 4096 [] tailCalls ∧ ¬ (idle.run 4096 tailCalls).Accounted ∧
      (idle.run 4096 tailCalls).mappings = [⟨65536, 69632⟩] ∧
      (idle.run 4096 tailCalls).engine.record? 65536 = some ⟨8192, 1, []⟩ := by
  have hhead : MapsFrom 4096 [] headCalls := by decide
  have htail : MapsFrom 4096 [] tailCalls := by decide
  have hidle : idle.Tracks := tracks_initial true Impl.Usable.initial 2 8 .kFlushLocalCacheWhen
  refine ⟨hhead, ?_, by decide, by decide, htail, ?_, by decide, by decide⟩
  · obtain ⟨⟨hmapping, hpossible, htarget⟩, ⟨hmapping', hpossible', htarget'⟩, -⟩ := hhead
    exact (hidle.call hmapping hpossible htarget trivial).not_accounted hmapping' hpossible'
      htarget' (by decide)
  · obtain ⟨⟨hmapping, hpossible, htarget⟩, ⟨hmapping', hpossible', htarget'⟩, -⟩ := htail
    exact (hidle.call hmapping hpossible htarget trivial).not_accounted hmapping' hpossible'
      htarget' (by decide)

end MapWorld

end Memhook
