import Memhook.Lib.Lru
import Memhook.Storage.BasicMappedStorage

/-!
# The call stack unwinder

`CallStackUnwinder` is what `Engine` uses of `src/memhook/callstack_unwinder.h`:
unwinding the calling thread and filling in the symbols of a call stack.  The
engine's results need only that neither changes the frames, which the two laws
of the class say.

`Impl` is the class `CallStackUnwinder::Impl`, one thread at a time: a bounded
cache of resolved instruction pointers, in front of what libunwind and `dladdr`
answer.  A new entry goes to the end of the sequenced index and the first entry
is the one that is evicted.  A hit calls `relocate(iter, end())` on that index,
whose arguments are a position and the entry that is moved in front of it; the
entry to move is here the end itself, the header of a circular list, and the
effect is that the sequence starts with the hit (`relocate`).

Evicting from an empty cache is undefined in the container that the source uses,
so the lookups return `none` there; a cache that may hold at least one entry
never gets into that case, and `Impl.Usable` is the unwinder built on such a
cache.
-/

namespace Memhook

/-- One frame as the cursor of libunwind reports it. -/
structure Frame where
  ip : Address
  sp : Address
  deriving DecidableEq, Repr

def CallStackInfoItem.frame (item : CallStackInfoItem) : Frame := ⟨item.ip, item.sp⟩

/-- How many steps `while (unw_step(&cursor) > 0 && --skip_frames > 0)` takes at most.  The
counter is a `size_t`, which wraps around at zero. -/
def stepsSkipped (skipFrames : ℕ) : ℕ := if skipFrames = 0 then 2 ^ 64 else skipFrames

/-- The frames `GetCallStackInfo` reports: the first steps are passed over and an
instruction pointer of zero ends the walk. -/
def walk (frames : List Frame) (skipFrames : ℕ) : List Frame :=
  (frames.drop (stepsSkipped skipFrames)).takeWhile fun frame => frame.ip ≠ 0

/-- What the engine uses of `CallStackUnwinder`.  `R` is what libunwind and
`dladdr` answer at the time of a call. -/
class CallStackUnwinder (U : Type*) (R : outParam Type*) where
  getCallStackInfo : R → U → List Frame → ℕ → Bool → CallStackInfo × U
  getCallStackUnwindProcInfo : R → U → CallStackInfo → CallStackInfo × U
  frames_getCallStackInfo : ∀ resolver unwinder frames skipFrames needUnwindProcInfo,
    (getCallStackInfo resolver unwinder frames skipFrames needUnwindProcInfo).1.map
      CallStackInfoItem.frame = walk frames skipFrames
  frames_getCallStackUnwindProcInfo : ∀ resolver unwinder callstack,
    (getCallStackUnwindProcInfo resolver unwinder callstack).1.map CallStackInfoItem.frame =
      callstack.map CallStackInfoItem.frame

/-! ## The cache in front of the resolver -/

/-- `Dl_info`, as far as it is read. -/
structure DlInfo where
  dliFbase : Address
  dliFname : Option Bytes

/-- The answers of libunwind and of `dladdr` at one moment. -/
structure Resolver where
  unwGetProcName : Address → Option (Bytes × Address)
  getProcName : Address → Option (Bytes × Address)
  dladdr : Address → Option DlInfo

/-- A process about which neither knows anything. -/
def Resolver.silent : Resolver := ⟨fun _ => none, fun _ => none, fun _ => none⟩

/-- The bytes of `"<unknown>"`. -/
def unknownTag : Bytes := [60, 117, 110, 107, 110, 111, 119, 110, 62]

structure UnwProcNameInfo where
  procname : Bytes
  ip : Address
  offp : Address
  shlAddr : Address

/-- What a lookup writes into a call stack item. -/
structure UnwProcInfo where
  shlPath : Bytes
  shlAddr : Address
  procname : Bytes
  offp : Address
  deriving DecidableEq, Repr

/-- `CallStackUnwinder::Impl`; the list is the sequenced index. -/
structure Impl where
  cacheMaxSize : ℕ
  procnameInfoMap : List UnwProcNameInfo
  shlPathMap : SymbolTable

namespace Impl

/-- The constructor.  The argument is what `strtoul` makes of the environment variable, if
that is set. -/
def new (cacheMaxSize : Option UInt64) : Impl :=
  ⟨(cacheMaxSize.map UInt64.toNat).getD 32768, [], fun _ => none⟩

/-- `FlushUnwCache`. -/
def flushUnwCache (impl : Impl) : Impl :=
  { impl with procnameInfoMap := [], shlPathMap := fun _ => none }

/-- `relocate(project<1>(iter), end())`: the header of the ring moves in front of the
entry of an instruction pointer, so that the sequence is read from that entry on. -/
def relocate (infos : List UnwProcNameInfo) (ip : Address) : List UnwProcNameInfo :=
  infos.dropWhile (fun info => info.ip ≠ ip) ++ infos.takeWhile (fun info => info.ip ≠ ip)

/-- The locked section of a lookup that finds its instruction pointer. -/
def hit (impl : Impl) (ip : Address) : Option (UnwProcInfo × Impl) :=
  match impl.procnameInfoMap.find? fun info => info.ip = ip with
  | none => none
  | some info =>
      some (⟨(impl.shlPathMap info.shlAddr).getD unknownTag, info.shlAddr, info.procname,
          info.offp⟩,
        { impl with procnameInfoMap := relocate impl.procnameInfoMap ip })

/-- Asking libunwind and `dladdr` about an instruction pointer. -/
def resolve (procName : Option (Bytes × Address)) (dlInfo : Option DlInfo) (ip : Address) :
    UnwProcNameInfo :=
  { procname := (procName.map Prod.fst).getD unknownTag
    ip := ip
    offp := (procName.map Prod.snd).getD 0
    shlAddr := (dlInfo.map DlInfo.dliFbase).getD 0 }

/-- The section that records the path of a module `dladdr` knows. -/
def emplaceShlPath (impl : Impl) (dlInfo : Option DlInfo) : Impl :=
  match dlInfo with
  | none => impl
  | some info =>
      { impl with
        shlPathMap := impl.shlPathMap.emplace info.dliFbase (info.dliFname.getD unknownTag) }

/-- Making room for one entry; `none` is an erase from an empty sequence. -/
def evict (impl : Impl) : Option Impl :=
  if impl.cacheMaxSize ≤ impl.procnameInfoMap.length then
    match impl.procnameInfoMap with
    | [] => none
    | _ :: rest => some { impl with procnameInfoMap := rest }
  else some impl

/-- Inserting at the end of the sequence, unless the instruction pointer has an
entry. -/
def insert (impl : Impl) (info : UnwProcNameInfo) : Impl :=
  if impl.procnameInfoMap.any fun other => other.ip = info.ip then impl
  else { impl with procnameInfoMap := impl.procnameInfoMap ++ [info] }

/-- `GetUnwProcInfo` and `GetUnwProcInfoByIP` of one thread: they differ only in
whom they ask for the procedure name. -/
def getUnwProcInfo (procName : Option (Bytes × Address)) (dlInfo : Option DlInfo) (impl : Impl)
    (ip : Address) : Option (UnwProcInfo × Impl) :=
  match impl.hit ip with
  | some found => some found
  | none =>
      let info := resolve procName dlInfo ip
      let shlPath := (dlInfo.map fun info => info.dliFname.getD unknownTag).getD unknownTag
      ((impl.emplaceShlPath dlInfo).evict).map fun evicted =>
        (⟨shlPath, info.shlAddr, info.procname, info.offp⟩, evicted.insert info)

@[simp] theorem cacheMaxSize_emplaceShlPath (impl : Impl) (dlInfo : Option DlInfo) :
    (impl.emplaceShlPath dlInfo).cacheMaxSize = impl.cacheMaxSize := by
  cases dlInfo <;> rfl

/-! ### What the operations do to the entries -/

section Entries

variable {impl : Impl} {ip : Address} {found : UnwProcInfo × Impl} {evicted : Impl}

theorem find?_of_hit (h : impl.hit ip = some found) :
    ∃ info ∈ impl.procnameInfoMap, info.ip = ip ∧
      found = (⟨(impl.shlPathMap info.shlAddr).getD unknownTag, info.shlAddr, info.procname,
          info.offp⟩,
        { impl with procnameInfoMap := relocate impl.procnameInfoMap ip }) := by
  unfold hit at h
  split at h
  · simp at h
  · next info hfind =>
      simp only [Option.some.injEq] at h
      exact ⟨info, List.mem_of_find?_eq_some hfind, by simpa using List.find?_some hfind, h.symm⟩

/-- A hit changes the order only. -/
theorem perm_of_hit (h : impl.hit ip = some found) :
    found.2.procnameInfoMap.Perm impl.procnameInfoMap := by
  obtain ⟨info, -, -, rfl⟩ := find?_of_hit h
  exact Lru.dropWhile_append_takeWhile_perm _ impl.procnameInfoMap

theorem shlPathMap_of_hit (h : impl.hit ip = some found) :
    found.2.shlPathMap = impl.shlPathMap := by
  obtain ⟨moved, -, -, rfl⟩ := find?_of_hit h
  rfl

/-- Eviction drops the head of a full sequence. -/
theorem evict_cases (h : impl.evict = some evicted) :
    (impl.procnameInfoMap.length < impl.cacheMaxSize ∧ evicted = impl) ∨
      ∃ info rest, impl.cacheMaxSize ≤ impl.procnameInfoMap.length ∧
        impl.procnameInfoMap = info :: rest ∧
        evicted = { impl with procnameInfoMap := rest } := by
  unfold evict at h
  split at h
  next hfull =>
    split at h
    · simp at h
    · next info rest hmap =>
        simp only [Option.some.injEq] at h
        exact .inr ⟨info, rest, hfull, hmap, h.symm⟩
  next hroom =>
    simp only [Option.some.injEq] at h
    exact .inl ⟨by omega, h.symm⟩

theorem mem_of_evict (h : impl.evict = some evicted) {info : UnwProcNameInfo}
    (hinfo : info ∈ evicted.procnameInfoMap) : info ∈ impl.procnameInfoMap := by
  obtain ⟨-, rfl⟩ | ⟨first, rest, -, hmap, rfl⟩ := evict_cases h
  · exact hinfo
  · rw [hmap]
    exact List.mem_cons_of_mem first hinfo

theorem shlPathMap_of_evict (h : impl.evict = some evicted) :
    evicted.shlPathMap = impl.shlPathMap := by
  obtain ⟨-, rfl⟩ | ⟨first, rest, -, -, rfl⟩ := evict_cases h <;> rfl

theorem insert_cases (impl : Impl) (info : UnwProcNameInfo) :
    (impl.procnameInfoMap.any (fun other => other.ip = info.ip) ∧ impl.insert info = impl) ∨
      ¬ impl.procnameInfoMap.any (fun other => other.ip = info.ip) ∧
        impl.insert info = { impl with procnameInfoMap := impl.procnameInfoMap ++ [info] } := by
  unfold insert
  split
  next hany => exact .inl ⟨hany, rfl⟩
  next hany => exact .inr ⟨hany, rfl⟩

theorem mem_of_mem_insert {info other : UnwProcNameInfo}
    (h : other ∈ (impl.insert info).procnameInfoMap) :
    other ∈ impl.procnameInfoMap ∨ other = info := by
  obtain ⟨-, hinsert⟩ | ⟨-, hinsert⟩ := insert_cases impl info
  · rw [hinsert] at h
    exact .inl h
  · rw [hinsert] at h
    simpa using h

theorem length_insert_le (impl : Impl) (info : UnwProcNameInfo) :
    (impl.insert info).procnameInfoMap.length ≤ impl.procnameInfoMap.length + 1 := by
  obtain ⟨-, hinsert⟩ | ⟨-, hinsert⟩ := insert_cases impl info <;> rw [hinsert] <;> simp

@[simp] theorem shlPathMap_insert (impl : Impl) (info : UnwProcNameInfo) :
    (impl.insert info).shlPathMap = impl.shlPathMap := by
  obtain ⟨-, hinsert⟩ | ⟨-, hinsert⟩ := insert_cases impl info <;> rw [hinsert]

end Entries

theorem cacheMaxSize_of_hit {impl : Impl} {ip : Address} {found : UnwProcInfo × Impl}
    (h : impl.hit ip = some found) : found.2.cacheMaxSize = impl.cacheMaxSize := by
  obtain ⟨moved, -, -, rfl⟩ := find?_of_hit h
  rfl

theorem cacheMaxSize_of_evict {impl evicted : Impl} (h : impl.evict = some evicted) :
    evicted.cacheMaxSize = impl.cacheMaxSize := by
  obtain ⟨-, rfl⟩ | ⟨first, rest, -, -, rfl⟩ := evict_cases h <;> rfl

@[simp] theorem cacheMaxSize_insert (impl : Impl) (info : UnwProcNameInfo) :
    (impl.insert info).cacheMaxSize = impl.cacheMaxSize := by
  obtain ⟨-, hinsert⟩ | ⟨-, hinsert⟩ := insert_cases impl info <;> rw [hinsert]

theorem cacheMaxSize_of_getUnwProcInfo {procName : Option (Bytes × Address)}
    {dlInfo : Option DlInfo} {impl : Impl} {ip : Address} {found : UnwProcInfo × Impl}
    (h : getUnwProcInfo procName dlInfo impl ip = some found) :
    found.2.cacheMaxSize = impl.cacheMaxSize := by
  unfold getUnwProcInfo at h
  split at h
  next hit hhit =>
    simp only [Option.some.injEq] at h
    rw [← h]
    exact cacheMaxSize_of_hit hhit
  next =>
    obtain ⟨evicted, hevict, rfl⟩ := Option.map_eq_some_iff.mp h
    rw [cacheMaxSize_insert, cacheMaxSize_of_evict hevict, cacheMaxSize_emplaceShlPath]

/-- With room for one entry, eviction never erases from an empty sequence. -/
theorem evict_isSome {impl : Impl} (hcap : 1 ≤ impl.cacheMaxSize) : impl.evict.isSome := by
  unfold evict
  split
  next hfull =>
    split
    next hnil =>
      rw [hnil] at hfull
      simp only [List.length_nil] at hfull
      omega
    next => rfl
  next => rfl

theorem getUnwProcInfo_isSome (procName : Option (Bytes × Address)) (dlInfo : Option DlInfo)
    {impl : Impl} (hcap : 1 ≤ impl.cacheMaxSize) (ip : Address) :
    (getUnwProcInfo procName dlInfo impl ip).isSome := by
  unfold getUnwProcInfo
  split
  · rfl
  · rw [Option.isSome_map]
    exact evict_isSome (by rwa [cacheMaxSize_emplaceShlPath])

/-! ## The unwinder over a cache with room -/

/-- A cache that may hold an entry. -/
def Usable := { impl : Impl // 1 ≤ impl.cacheMaxSize }

/-- The cache as the constructor makes it when the environment sets no size. -/
def Usable.initial : Usable := ⟨⟨32768, [], fun _ => none⟩, by decide⟩

theorem one_le_cacheMaxSize_new {cacheMaxSize : Option UInt64} (h : cacheMaxSize ≠ some 0) :
    1 ≤ (new cacheMaxSize).cacheMaxSize := by
  cases cacheMaxSize with
  | none => simp [new]
  | some size =>
      have hsize : size.toNat ≠ 0 := by
        intro hzero
        rw [← UInt64.toNat_zero, UInt64.toNat_inj] at hzero
        exact h (by rw [hzero])
      exact Nat.one_le_iff_ne_zero.mpr hsize

/-- The cache as the constructor makes it for any other size than zero. -/
def Usable.new (cacheMaxSize : Option UInt64) (h : cacheMaxSize ≠ some 0) : Usable :=
  ⟨Impl.new cacheMaxSize, one_le_cacheMaxSize_new h⟩

/-- `CallStackUnwinder::FlushCallStackCache`. -/
def Usable.flushCallStackCache (unwinder : Usable) : Usable :=
  ⟨unwinder.1.flushUnwCache, unwinder.2⟩

/-- The lookup is total on a usable cache. -/
def Usable.lookup (procName : Option (Bytes × Address)) (dlInfo : Option DlInfo)
    (unwinder : Usable) (ip : Address) : UnwProcInfo × Usable :=
  match h : getUnwProcInfo procName dlInfo unwinder.1 ip with
  | some found =>
      (found.1, ⟨found.2, (cacheMaxSize_of_getUnwProcInfo h).symm ▸ unwinder.2⟩)
  | none => absurd (getUnwProcInfo_isSome procName dlInfo unwinder.2 ip) (by simp [h])

/-- An item as `push_back` and the two register reads leave it. -/
def newItem (frame : Frame) : CallStackInfoItem := ⟨[], [], 0, frame.ip, frame.sp, 0⟩

def setProcInfo (item : CallStackInfoItem) (info : UnwProcInfo) : CallStackInfoItem :=
  { item with
    shlPath := info.shlPath, shlAddr := info.shlAddr, procname := info.procname,
    offp := info.offp }

@[simp] theorem frame_newItem (frame : Frame) : (newItem frame).frame = frame := rfl

@[simp] theorem frame_setProcInfo (item : CallStackInfoItem) (info : UnwProcInfo) :
    (setProcInfo item info).frame = item.frame := rfl

namespace Usable

/-- The loop of `GetCallStackInfo`. -/
def unwindLoop (resolver : Resolver) (needUnwindProcInfo : Bool) :
    List Frame → Usable → CallStackInfo × Usable
  | [], unwinder => ([], unwinder)
  | frame :: rest, unwinder =>
      if needUnwindProcInfo then
        let found := unwinder.lookup (resolver.unwGetProcName frame.ip)
          (resolver.dladdr frame.ip) frame.ip
        let tail := unwindLoop resolver needUnwindProcInfo rest found.2
        (setProcInfo (newItem frame) found.1 :: tail.1, tail.2)
      else
        let tail := unwindLoop resolver needUnwindProcInfo rest unwinder
        (newItem frame :: tail.1, tail.2)

/-- The loop of `GetCallStackUnwindProcInfo`. -/
def resolveLoop (resolver : Resolver) : CallStackInfo → Usable → CallStackInfo × Usable
  | [], unwinder => ([], unwinder)
  | item :: rest, unwinder =>
      let found := unwinder.lookup (resolver.getProcName item.ip) (resolver.dladdr item.ip) item.ip
      let tail := resolveLoop resolver rest found.2
      (setProcInfo item found.1 :: tail.1, tail.2)

theorem frames_unwindLoop (resolver : Resolver) (needUnwindProcInfo : Bool)
    (frames : List Frame) (unwinder : Usable) :
    (unwindLoop resolver needUnwindProcInfo frames unwinder).1.map CallStackInfoItem.frame =
      frames := by
  induction frames generalizing unwinder with
  | nil => rfl
  | cons frame rest ih =>
      unfold unwindLoop
      split <;> simp [ih]

theorem frames_resolveLoop (resolver : Resolver) (callstack : CallStackInfo)
    (unwinder : Usable) :
    (resolveLoop resolver callstack unwinder).1.map CallStackInfoItem.frame =
      callstack.map CallStackInfoItem.frame := by
  induction callstack generalizing unwinder with
  | nil => rfl
  | cons item rest ih => simp [resolveLoop, ih]

instance : CallStackUnwinder Usable Resolver where
  getCallStackInfo resolver unwinder frames skipFrames needUnwindProcInfo :=
    unwindLoop resolver needUnwindProcInfo (walk frames skipFrames) unwinder
  getCallStackUnwindProcInfo resolver unwinder callstack :=
    resolveLoop resolver callstack unwinder
  frames_getCallStackInfo resolver unwinder frames skipFrames needUnwindProcInfo :=
    frames_unwindLoop resolver needUnwindProcInfo (walk frames skipFrames) unwinder
  frames_getCallStackUnwindProcInfo resolver unwinder callstack :=
    frames_resolveLoop resolver callstack unwinder

end Usable

end Impl

end Memhook
