import Mathlib.Data.List.Perm.Subperm
import Memhook.Engine.SymbolCache

/-!
# The symbol cache as a cache

With answers of `dladdr` and `get_proc_name` that stay as they are, `CallStackUnwinder::Impl`
is a transparent cache: every lookup returns an uncached resolution, and as many instruction
pointers are kept as there is room for (`Keeps`).

The sequenced index is meant to list them in order of last lookup, which is `Lru.touch` on
the instruction pointers.  A miss does that (`ips_insert_of_evict`).  A hit passes the
arguments of `relocate` in the wrong order and turns the index instead, so that the
instruction pointer which was used last becomes the one that is evicted next
(`ips_of_hit`).  Turning is using only where a single entry is cached, and so the order is
kept up exactly by the sequences of calls whose hits are all of that kind.
-/

namespace Memhook

/-- The calls that change the cache. -/
inductive CacheEvent
  | lookup (ip : Address)
  | flush

/-- The instruction pointers looked up since the last flush, after one more call. -/
def CacheEvent.use (uses : List Address) : CacheEvent → List Address
  | .lookup ip => uses ++ [ip]
  | .flush => []

namespace Impl

/-- The empty cache with room for `cacheMaxSize` entries. -/
def ofSize (cacheMaxSize : ℕ) : Impl := ⟨cacheMaxSize, [], fun _ => none⟩

variable (resolver : Resolver)

/-- `GetUnwProcInfoByIP` and `FlushUnwCache`. -/
def call (impl : Impl) : CacheEvent → Impl
  | .lookup ip => ((impl.getUnwProcInfoByIP resolver ip).map Prod.snd).getD impl
  | .flush => impl.flushUnwCache

/-- A lookup returns what the resolver answers. -/
def Transparent (impl : Impl) : CacheEvent → Prop
  | .lookup ip => (impl.getUnwProcInfoByIP resolver ip).map Prod.fst = some (resolver.uncached ip)
  | .flush => True

/-- The sequenced index. -/
def ips (impl : Impl) : List Address := impl.procnameInfoMap.map UnwProcNameInfo.ip

/-- An instruction pointer that is cached is looked up only while it is the only one. -/
def HitsAlone (impl : Impl) : CacheEvent → Prop
  | .lookup ip => ip ∈ impl.ips → impl.ips = [ip]
  | .flush => True

instance (impl : Impl) (event : CacheEvent) : Decidable (impl.HitsAlone event) :=
  match event with
  | .lookup ip => inferInstanceAs (Decidable (ip ∈ impl.ips → impl.ips = [ip]))
  | .flush => inferInstanceAs (Decidable True)

variable {resolver} {impl : Impl} {ip : Address} {found : UnwProcInfo × Impl}

/-! ## One lookup -/

/-- A hit makes its instruction pointer the first of the sequence. -/
theorem ips_of_hit (h : impl.hit ip = some found) :
    ip ∈ impl.ips ∧ found.2.ips = Lru.turn impl.ips ip := by
  obtain ⟨info, hinfo, hip, rfl⟩ := find?_of_hit h
  refine ⟨List.mem_map.mpr ⟨info, hinfo, hip⟩, ?_⟩
  unfold ips relocate Lru.turn
  rw [List.map_append, List.dropWhile_map, List.takeWhile_map]
  rfl

/-- An entry that is not there yet goes to the end of what eviction leaves. -/
theorem ips_insert_of_evict {evicted : Impl} (hevict : impl.evict = some evicted)
    (info : UnwProcNameInfo) (hmiss : info.ip ∉ impl.ips) :
    (evicted.insert info).ips = Lru.touch impl.cacheMaxSize impl.ips info.ip := by
  have hfresh : ¬ evicted.procnameInfoMap.any fun other => other.ip = info.ip := by
    simp only [List.any_eq_true, decide_eq_true_eq, not_exists, not_and]
    intro other hother hip
    exact hmiss (List.mem_map.mpr ⟨other, mem_of_evict hevict hother, hip⟩)
  have hinsert : (evicted.insert info).ips = evicted.ips ++ [info.ip] := by
    rw [insert, if_neg hfresh]
    simp [ips]
  have hlength : impl.ips.length = impl.procnameInfoMap.length := List.length_map _
  rw [hinsert, Lru.touch, if_neg hmiss, hlength]
  obtain ⟨hroom, rfl⟩ | ⟨first, rest, hfull, hmap, rfl⟩ := evict_cases hevict
  · rw [if_neg (by omega)]
  · rw [if_pos hfull]
    simp [ips, hmap]

/-- A hit turns the sequence, a miss is a use. -/
theorem ips_of_getUnwProcInfoByIP (h : impl.getUnwProcInfoByIP resolver ip = some found) :
    (ip ∈ impl.ips ∧ found.2.ips = Lru.turn impl.ips ip) ∨
      (ip ∉ impl.ips ∧ found.2.ips = Lru.touch impl.cacheMaxSize impl.ips ip) := by
  unfold getUnwProcInfoByIP getUnwProcInfo at h
  split at h
  next hit hhit =>
    simp only [Option.some.injEq] at h
    exact .inl (h ▸ ips_of_hit hhit)
  next hmiss =>
    obtain ⟨evicted, hevict, rfl⟩ := Option.map_eq_some_iff.mp h
    have hips : (impl.emplaceShlPath (resolver.dladdr ip)).ips = impl.ips := by
      cases resolver.dladdr ip <;> rfl
    have hnone : ip ∉ impl.ips := by
      intro hmem
      obtain ⟨info, hinfo, hip⟩ := List.mem_map.mp hmem
      exact hit_eq_none_iff.mp hmiss info hinfo hip
    have hinsert := ips_insert_of_evict hevict
      (resolve (resolver.getProcName ip) (resolver.dladdr ip) ip) (hips ▸ hnone)
    rw [hips, cacheMaxSize_emplaceShlPath] at hinsert
    exact .inr ⟨hnone, hinsert⟩

theorem exists_lookup (resolver : Resolver) (hroom : 1 ≤ impl.cacheMaxSize) (ip : Address) :
    ∃ found, impl.getUnwProcInfoByIP resolver ip = some found ∧
      impl.call resolver (.lookup ip) = found.2 := by
  obtain ⟨found, hfound⟩ := Option.isSome_iff_exists.mp
    (getUnwProcInfoByIP_isSome resolver hroom ip)
  refine ⟨found, hfound, ?_⟩
  rw [call, hfound]
  rfl

theorem cacheMaxSize_call (impl : Impl) (event : CacheEvent) :
    (impl.call resolver event).cacheMaxSize = impl.cacheMaxSize := by
  cases event with
  | lookup ip =>
      rw [call]
      cases hfound : impl.getUnwProcInfoByIP resolver ip with
      | none => rfl
      | some found => exact cacheMaxSize_of_getUnwProcInfo hfound
  | flush => rfl

/-! ## What survives -/

/-- The cache holds what the resolver answers, about as many instruction pointers that were
looked up as there is room for. -/
structure Keeps (resolver : Resolver) (uses : List Address) (impl : Impl) : Prop where
  coherent : impl.Coherent resolver
  room : 1 ≤ impl.cacheMaxSize
  nodup : impl.ips.Nodup
  used : ∀ ip ∈ impl.ips, ip ∈ uses
  bounded : impl.ips.length ≤ impl.cacheMaxSize
  complete : impl.ips.length < impl.cacheMaxSize → ∀ ip ∈ uses, ip ∈ impl.ips

namespace Keeps

variable {uses : List Address}

theorem transparent (h : impl.Keeps resolver uses) (hresolver : resolver.Consistent)
    (event : CacheEvent) : impl.Transparent resolver event := by
  cases event with
  | lookup ip =>
      obtain ⟨found, hfound, -⟩ := exists_lookup resolver h.room ip
      rw [Transparent, hfound, Option.map_some,
        (h.coherent.getUnwProcInfoByIP hresolver hfound).1]
  | flush => trivial

theorem length_eq (h : impl.Keeps resolver uses) :
    impl.ips.length = min impl.cacheMaxSize uses.dedup.length := by
  have hle : impl.ips.length ≤ uses.dedup.length :=
    (h.nodup.subperm fun ip hip => List.mem_dedup.mpr (h.used ip hip)).length_le
  rcases h.bounded.lt_or_eq with hspare | hfull
  · have hge : uses.dedup.length ≤ impl.ips.length :=
      (uses.nodup_dedup.subperm fun ip hip =>
        h.complete hspare ip (List.mem_dedup.mp hip)).length_le
    omega
  · omega

/-- A hit keeps the entries, only their order changes. -/
theorem of_turn (h : impl.Keeps resolver uses) {next : Impl} (hcoherent : next.Coherent resolver)
    (hsize : next.cacheMaxSize = impl.cacheMaxSize) (hmem : ip ∈ impl.ips)
    (hips : next.ips = Lru.turn impl.ips ip) : next.Keeps resolver (uses ++ [ip]) := by
  have hperm : next.ips.Perm impl.ips := hips ▸ Lru.turn_perm impl.ips ip
  refine ⟨hcoherent, hsize ▸ h.room, hperm.nodup_iff.mpr h.nodup, ?_, ?_, ?_⟩
  · intro other hother
    exact List.mem_append_left _ (h.used other (hperm.mem_iff.mp hother))
  · rw [hperm.length_eq, hsize]
    exact h.bounded
  · rw [hperm.length_eq, hsize]
    intro hspare other hother
    rcases List.mem_append.mp hother with hother | hother
    · exact hperm.mem_iff.mpr (h.complete hspare other hother)
    · rw [List.mem_singleton.mp hother]
      exact hperm.mem_iff.mpr hmem

/-- A miss drops an entry only if there is no room. -/
theorem of_touch (h : impl.Keeps resolver uses) {next : Impl} (hcoherent : next.Coherent resolver)
    (hsize : next.cacheMaxSize = impl.cacheMaxSize) (hmiss : ip ∉ impl.ips)
    (hips : next.ips = Lru.touch impl.cacheMaxSize impl.ips ip) :
    next.Keeps resolver (uses ++ [ip]) := by
  have hroom := h.room
  have hbounded := h.bounded
  rw [Lru.touch, if_neg hmiss] at hips
  split at hips
  next hfull =>
    have hsub : ∀ other ∈ impl.ips.drop 1, other ∈ impl.ips := fun _ => List.mem_of_mem_drop
    have hlength : next.ips.length = impl.ips.length := by
      rw [hips, List.length_append, List.length_drop, List.length_singleton]
      omega
    refine ⟨hcoherent, hsize ▸ h.room, ?_, ?_, by omega, fun hspare => by omega⟩
    · rw [hips, List.nodup_append']
      refine ⟨h.nodup.sublist (List.drop_sublist _ _), List.nodup_singleton ip, ?_⟩
      rw [List.disjoint_singleton]
      exact fun hmem => hmiss (hsub ip hmem)
    · rw [hips]
      intro other hother
      rcases List.mem_append.mp hother with hother | hother
      · exact List.mem_append_left _ (h.used other (hsub other hother))
      · exact List.mem_append_right _ hother
  next hspare =>
    have hlength : next.ips.length = impl.ips.length + 1 := by simp [hips]
    refine ⟨hcoherent, hsize ▸ h.room, ?_, ?_, by omega, fun _ => ?_⟩
    · rw [hips, List.nodup_append', List.disjoint_singleton]
      exact ⟨h.nodup, List.nodup_singleton ip, hmiss⟩
    · rw [hips]
      intro other hother
      rcases List.mem_append.mp hother with hother | hother
      · exact List.mem_append_left _ (h.used other hother)
      · exact List.mem_append_right _ hother
    · rw [hips]
      intro other hother
      rcases List.mem_append.mp hother with hother | hother
      · exact List.mem_append_left _ (h.complete (by omega) other hother)
      · exact List.mem_append_right _ hother

theorem call (h : impl.Keeps resolver uses) (hresolver : resolver.Consistent)
    (event : CacheEvent) : (impl.call resolver event).Keeps resolver (event.use uses) := by
  cases event with
  | lookup ip =>
      obtain ⟨found, hfound, hcall⟩ := exists_lookup resolver h.room ip
      have hcoherent := (h.coherent.getUnwProcInfoByIP hresolver hfound).2
      have hsize : found.2.cacheMaxSize = impl.cacheMaxSize :=
        cacheMaxSize_of_getUnwProcInfo hfound
      rw [hcall]
      obtain ⟨hmem, hips⟩ | ⟨hmiss, hips⟩ := ips_of_getUnwProcInfoByIP hfound
      · exact h.of_turn hcoherent hsize hmem hips
      · exact h.of_touch hcoherent hsize hmiss hips
  | flush =>
      refine ⟨coherent_flushUnwCache resolver impl, h.room, ?_, ?_, ?_, ?_⟩ <;>
        simp [Impl.call, flushUnwCache, ips, CacheEvent.use]

end Keeps

/-! ## Sequences of calls -/

/-- The sequenced index lists the last of the instruction pointers that were looked up, in
order of last lookup. -/
def InOrder (uses : List Address) (impl : Impl) : Prop :=
  impl.ips = Lru.recent impl.cacheMaxSize uses

/-- A lookup keeps the order up unless it turns the index. -/
theorem inOrder_lookup_iff {uses : List Address} (h : impl.InOrder uses)
    (hroom : 1 ≤ impl.cacheMaxSize) (ip : Address) :
    (impl.call resolver (.lookup ip)).InOrder (uses ++ [ip]) ↔ impl.HitsAlone (.lookup ip) := by
  obtain ⟨found, hfound, hcall⟩ := exists_lookup resolver hroom ip
  have hsize : found.2.cacheMaxSize = impl.cacheMaxSize := cacheMaxSize_of_getUnwProcInfo hfound
  have hrecent : Lru.recent found.2.cacheMaxSize (uses ++ [ip]) =
      Lru.touch impl.cacheMaxSize impl.ips ip := by
    calc Lru.recent found.2.cacheMaxSize (uses ++ [ip])
        = Lru.recent impl.cacheMaxSize (uses ++ [ip]) := by rw [hsize]
      _ = Lru.touch impl.cacheMaxSize (Lru.recent impl.cacheMaxSize uses) ip :=
          (Lru.touch_recent hroom uses ip).symm
      _ = Lru.touch impl.cacheMaxSize impl.ips ip := by rw [← h]
  rw [hcall, InOrder, hrecent]
  obtain ⟨hmem, hips⟩ | ⟨hmiss, hips⟩ := ips_of_getUnwProcInfoByIP hfound
  · rw [hips, Lru.turn_eq_touch_iff hmem]
    exact ⟨fun halone _ => halone, fun halone => halone hmem⟩
  · exact ⟨fun _ hmem => absurd hmem hmiss, fun _ => hips⟩

theorem inOrder_call_iff {uses : List Address} (h : impl.InOrder uses)
    (hroom : 1 ≤ impl.cacheMaxSize) (event : CacheEvent) :
    (impl.call resolver event).InOrder (event.use uses) ↔ impl.HitsAlone event := by
  cases event with
  | lookup ip => exact inOrder_lookup_iff h hroom ip
  | flush =>
      refine ⟨fun _ => trivial, fun _ => ?_⟩
      simp [InOrder, Impl.call, flushUnwCache, ips, CacheEvent.use]

/-- A call, and what it does to the instruction pointers looked up. -/
def callAndUse (resolver : Resolver) (state : Impl × List Address) (event : CacheEvent) :
    Impl × List Address :=
  (state.1.call resolver event, event.use state.2)

theorem foldl_callAndUse (resolver : Resolver) (impl : Impl) (uses : List Address)
    (events : List CacheEvent) :
    events.foldl (callAndUse resolver) (impl, uses) =
      (events.foldl (call resolver) impl, events.foldl CacheEvent.use uses) :=
  List.foldl_hom₂ events Prod.mk (call resolver) CacheEvent.use (callAndUse resolver) impl uses
    fun _ _ _ => rfl

theorem keeps_ofSize (resolver : Resolver) {cacheMaxSize : ℕ} (hsize : 1 ≤ cacheMaxSize) :
    (ofSize cacheMaxSize).Keeps resolver [] := by
  refine ⟨by constructor <;> simp [ofSize], hsize, ?_, ?_, ?_, ?_⟩ <;> simp [ofSize, ips]

theorem cacheMaxSize_foldl_call (impl : Impl) (events : List CacheEvent) :
    (events.foldl (call resolver) impl).cacheMaxSize = impl.cacheMaxSize := by
  induction events generalizing impl with
  | nil => rfl
  | cons event rest ih =>
      rw [List.foldl_cons, ih]
      exact cacheMaxSize_call impl event

/-- **The symbol cache is transparent, and in order of last lookup only while it hits single
entries.**  Whatever is looked up and flushed, every lookup returns what the resolver answers
and the cache keeps as many of the instruction pointers looked up since the last flush as
there is room for.  The sequenced index lists those that were looked up last, in order of last
lookup, after each of the calls if and only if every lookup of a cached instruction pointer
happens while no other is cached. -/
theorem symbolCache_recency_iff {cacheMaxSize : ℕ} (hsize : 1 ≤ cacheMaxSize)
    {resolver : Resolver} (hresolver : resolver.Consistent) (events : List CacheEvent) :
    Run.Along (call resolver) (Transparent resolver) (ofSize cacheMaxSize) events ∧
      (events.foldl (call resolver) (ofSize cacheMaxSize)).ips.length =
        min cacheMaxSize (events.foldl CacheEvent.use []).dedup.length ∧
      ((∀ before, before <+: events →
          (before.foldl (call resolver) (ofSize cacheMaxSize)).ips =
            (before.foldl CacheEvent.use []).dedup.rtake cacheMaxSize) ↔
        Run.Along (call resolver) HitsAlone (ofSize cacheMaxSize) events) := by
  -- beside the cache runs the list of what was looked up
  have hany : Run.Along (callAndUse resolver) (fun _ _ => True) (ofSize cacheMaxSize, [])
      events := .of_forall fun _ _ => trivial
  have hkeeps : ∀ {state : Impl × List Address} {event : CacheEvent},
      state.1.Keeps resolver state.2 → True →
        (callAndUse resolver state event).1.Keeps resolver (callAndUse resolver state event).2 :=
    fun h _ => h.call hresolver _
  have halong : ∀ P : Impl → CacheEvent → Prop,
      Run.Along (callAndUse resolver) (fun state event => P state.1 event)
          (ofSize cacheMaxSize, []) events ↔
        Run.Along (call resolver) P (ofSize cacheMaxSize) events :=
    fun P => Run.along_comap_iff fun _ _ => rfl
  refine ⟨?_, ?_, ?_⟩
  · refine (halong (Transparent resolver)).mp ?_
    exact hany.of_invariant (I := fun state => state.1.Keeps resolver state.2) hkeeps
      (fun h _ => h.transparent hresolver _) (keeps_ofSize resolver hsize)
  · have hfinal := Run.invariant (I := fun state : Impl × List Address =>
      state.1.Keeps resolver state.2) hkeeps (keeps_ofSize resolver hsize) hany
    rw [foldl_callAndUse] at hfinal
    have hlength := hfinal.length_eq
    rwa [cacheMaxSize_foldl_call] at hlength
  · have hordered : ∀ before : List CacheEvent,
        (before.foldl (call resolver) (ofSize cacheMaxSize)).ips =
            (before.foldl CacheEvent.use []).dedup.rtake cacheMaxSize ↔
          (1 ≤ (before.foldl (callAndUse resolver) (ofSize cacheMaxSize, [])).1.cacheMaxSize ∧
            (before.foldl (callAndUse resolver) (ofSize cacheMaxSize, [])).1.InOrder
              (before.foldl (callAndUse resolver) (ofSize cacheMaxSize, [])).2) := by
      intro before
      rw [foldl_callAndUse, InOrder, cacheMaxSize_foldl_call]
      exact ⟨fun h => ⟨hsize, h⟩, fun h => h.2⟩
    simp only [hordered]
    rw [← halong]
    refine Run.forall_prefix_iff (I := fun state : Impl × List Address =>
      1 ≤ state.1.cacheMaxSize ∧ state.1.InOrder state.2) ?_ ⟨hsize, (Lru.recent_nil _).symm⟩
    rintro state event ⟨hroom, hinOrder⟩
    rw [callAndUse, inOrder_call_iff hinOrder hroom, cacheMaxSize_call]
    exact and_iff_right hroom

/-- A hit of a single entry, a flush, and one entry dropped for want of room. -/
theorem symbolCache_recency_iff_loaded :
    let events : List CacheEvent :=
      [.lookup 4100, .lookup 4100, .flush, .lookup 1, .lookup 4100, .lookup 3]
    ∀ before, before <+: events →
      (before.foldl (call Process.loaded) (ofSize 2)).ips =
        (before.foldl CacheEvent.use []).dedup.rtake 2 :=
  (symbolCache_recency_iff (by decide) Process.consistent_loaded _).2.2.mpr (by decide)

/-- With room for two, looking up `1` again makes it the one that gives way to `3`. -/
theorem symbolCache_evicts_last_hit :
    Process.loaded.Consistent ∧
      let events : List CacheEvent := [.lookup 1, .lookup 2, .lookup 1, .lookup 3]
      (events.foldl (call Process.loaded) (ofSize 2)).ips = [2, 3] ∧
        (events.foldl CacheEvent.use []).dedup.rtake 2 = [1, 3] :=
  ⟨Process.consistent_loaded, by decide, by decide⟩

end Impl

end Memhook
