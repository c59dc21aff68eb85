import Memhook.Engine.CallStackUnwinder
import Memhook.Lib.Run

/-!
# The symbol cache and the dynamic loader

While the answers of `dladdr` and `get_proc_name` do not change, nobody can tell that
`CallStackUnwinder::Impl` has a cache: `Coherent` says that what it holds is what they
would answer, and `Coherent.getUnwProcInfo` that a lookup then returns an uncached
resolution and keeps it so.  Two facts about `dladdr` are used, `Resolver.Consistent`: a
module has one path, and no module is at address zero, which stands for an unknown module.

Loading and unloading libraries changes the answers.  `memhook_dlclose` flushes the cache
afterwards; `memhook_dlopen` does not, so what was looked up before, answers that nothing
is known included, stays in the cache whatever the loader put there.
-/

namespace Memhook

/-- What `dladdr` promises about the modules of a process. -/
structure Resolver.Consistent (resolver : Resolver) : Prop where
  path : ∀ {ip ip' info info'}, resolver.dladdr ip = some info → resolver.dladdr ip' = some info' →
    info.dliFbase = info'.dliFbase → info.dliFname = info'.dliFname
  base : ∀ {ip info}, resolver.dladdr ip = some info → info.dliFbase ≠ 0

/-- An uncached resolution. -/
def Resolver.uncached (resolver : Resolver) (ip : Address) : UnwProcInfo :=
  let info := Impl.resolve (resolver.getProcName ip) (resolver.dladdr ip) ip
  ⟨((resolver.dladdr ip).map fun info => info.dliFname.getD unknownTag).getD unknownTag,
    info.shlAddr, info.procname, info.offp⟩

namespace Impl

/-- `GetUnwProcInfoByIP` of one thread. -/
def getUnwProcInfoByIP (resolver : Resolver) (impl : Impl) (ip : Address) :
    Option (UnwProcInfo × Impl) :=
  getUnwProcInfo (resolver.getProcName ip) (resolver.dladdr ip) impl ip

/-- The cache holds what the resolver answers. -/
structure Coherent (resolver : Resolver) (impl : Impl) : Prop where
  entry : ∀ info ∈ impl.procnameInfoMap,
    info = resolve (resolver.getProcName info.ip) (resolver.dladdr info.ip) info.ip
  located : ∀ info ∈ impl.procnameInfoMap, info.shlAddr ≠ 0 →
    (impl.shlPathMap info.shlAddr).isSome
  path : ∀ {ip dl path}, resolver.dladdr ip = some dl → impl.shlPathMap dl.dliFbase = some path →
    path = dl.dliFname.getD unknownTag
  null : impl.shlPathMap 0 = none

section Lookup

variable {resolver : Resolver} {impl : Impl}

theorem coherent_new (resolver : Resolver) (cacheMaxSize : Option UInt64) :
    (new cacheMaxSize).Coherent resolver := by
  constructor <;> simp [new]

theorem coherent_flushUnwCache (resolver : Resolver) (impl : Impl) :
    impl.flushUnwCache.Coherent resolver := by
  constructor <;> simp [flushUnwCache]

/-- A cached answer is an uncached one. -/
theorem Coherent.hit (h : impl.Coherent resolver) (hresolver : resolver.Consistent)
    {ip : Address} {found : UnwProcInfo × Impl} (hhit : impl.hit ip = some found) :
    found.1 = resolver.uncached ip ∧ found.2.Coherent resolver := by
  have hsub : ∀ other ∈ found.2.procnameInfoMap, other ∈ impl.procnameInfoMap :=
    fun _ hother => (perm_of_hit hhit).mem_iff.mp hother
  obtain ⟨info, hmem, hip, rfl⟩ := find?_of_hit hhit
  have hentry := h.entry info hmem
  rw [hip] at hentry
  have hpath : (impl.shlPathMap info.shlAddr).getD unknownTag =
      ((resolver.dladdr ip).map fun info => info.dliFname.getD unknownTag).getD unknownTag := by
    cases hdl : resolver.dladdr ip with
    | none =>
        -- an unknown module has no path, because none is at zero
        have hnull : info.shlAddr = 0 := by rw [hentry]; simp [resolve, hdl]
        simp [hnull, h.null]
    | some dl =>
        have hbase : info.shlAddr = dl.dliFbase := by rw [hentry]; simp [resolve, hdl]
        obtain ⟨path, hpath⟩ := Option.isSome_iff_exists.mp
          (h.located info hmem (hbase ▸ hresolver.base hdl))
        rw [hbase] at hpath ⊢
        simp [hpath, h.path hdl hpath]
  refine ⟨?_, fun other hother => h.entry other (hsub other hother),
    fun other hother => h.located other (hsub other hother), h.path, h.null⟩
  unfold Resolver.uncached
  rw [← hentry, hpath]

/-- Recording the path of a module keeps the paths that are there. -/
theorem Coherent.emplaceShlPath (h : impl.Coherent resolver) (hresolver : resolver.Consistent)
    (ip : Address) : (impl.emplaceShlPath (resolver.dladdr ip)).Coherent resolver := by
  cases hdl : resolver.dladdr ip with
  | none => exact h
  | some dl =>
      refine ⟨h.entry, fun info hinfo hnull => ?_, ?_, ?_⟩
      · exact (SymbolTable.isSome_emplace ..).mpr (.inr (h.located info hinfo hnull))
      · intro ip' dl' path hdl' hpath
        unfold Impl.emplaceShlPath SymbolTable.emplace at hpath
        simp only at hpath
        split at hpath
        · next hbase =>
            cases hold : impl.shlPathMap dl.dliFbase with
            | some old =>
                rw [hold, Option.some_or, Option.some.injEq] at hpath
                rw [← hbase] at hold
                exact hpath ▸ h.path hdl' hold
            | none =>
                rw [hold, Option.none_or, Option.some.injEq] at hpath
                rw [← hpath, hresolver.path hdl' hdl hbase]
        · exact h.path hdl' hpath
      · unfold Impl.emplaceShlPath SymbolTable.emplace
        simp only [if_neg (hresolver.base hdl).symm]
        exact h.null

theorem Coherent.evict (h : impl.Coherent resolver) {evicted : Impl}
    (hevict : impl.evict = some evicted) : evicted.Coherent resolver := by
  have hpaths := shlPathMap_of_evict hevict
  refine ⟨fun info hinfo => h.entry info (mem_of_evict hevict hinfo), ?_, ?_, ?_⟩
  · intro info hinfo
    rw [hpaths]
    exact h.located info (mem_of_evict hevict hinfo)
  · intro ip dl path hdl hpath
    rw [hpaths] at hpath
    exact h.path hdl hpath
  · rw [hpaths]
    exact h.null

theorem Coherent.insert (h : impl.Coherent resolver) {info : UnwProcNameInfo}
    (hentry : info = resolve (resolver.getProcName info.ip) (resolver.dladdr info.ip) info.ip)
    (hlocated : info.shlAddr ≠ 0 → (impl.shlPathMap info.shlAddr).isSome) :
    (impl.insert info).Coherent resolver := by
  refine ⟨fun other hother => ?_, fun other hother => ?_, ?_, ?_⟩
  · rcases mem_of_mem_insert hother with hother | rfl
    · exact h.entry other hother
    · exact hentry
  · rw [shlPathMap_insert]
    rcases mem_of_mem_insert hother with hother | rfl
    · exact h.located other hother
    · exact hlocated
  · rw [shlPathMap_insert]
    exact h.path
  · rw [shlPathMap_insert]
    exact h.null

/-- **The cache is invisible** while the answers stay: a lookup returns what an uncached
resolution would. -/
theorem Coherent.getUnwProcInfoByIP (h : impl.Coherent resolver)
    (hresolver : resolver.Consistent) {ip : Address} {found : UnwProcInfo × Impl}
    (hfound : impl.getUnwProcInfoByIP resolver ip = some found) :
    found.1 = resolver.uncached ip ∧ found.2.Coherent resolver := by
  unfold Impl.getUnwProcInfoByIP Impl.getUnwProcInfo at hfound
  split at hfound
  next hit hhit =>
    simp only [Option.some.injEq] at hfound
    exact hfound ▸ h.hit hresolver hhit
  next =>
    obtain ⟨evicted, hevict, rfl⟩ := Option.map_eq_some_iff.mp hfound
    refine ⟨rfl, ((h.emplaceShlPath hresolver ip).evict hevict).insert rfl ?_⟩
    intro hnull
    rw [shlPathMap_of_evict hevict]
    cases hdl : resolver.dladdr ip with
    | none => simp [resolve, hdl] at hnull
    | some dl => exact (SymbolTable.isSome_emplace ..).mpr (.inl (by simp [resolve]))

end Lookup

/-! ## What a hit gives away -/

section Hit

variable {resolver : Resolver} {impl : Impl} {ip : Address} {found : UnwProcInfo × Impl}

theorem hit_eq_none_iff : impl.hit ip = none ↔ ∀ info ∈ impl.procnameInfoMap, info.ip ≠ ip := by
  unfold hit
  split
  next hfind => simpa using hfind
  next info hfind =>
    simp only [reduceCtorEq, false_iff, not_forall, not_not]
    exact ⟨info, List.mem_of_find?_eq_some hfind, by simpa using List.find?_some hfind⟩

/-- The path of a hit is the recorded path of the module. -/
theorem path_of_hit (hhit : impl.hit ip = some found) (hfound : found.1 = resolver.uncached ip)
    {dl : DlInfo} (hdl : resolver.dladdr ip = some dl) {path : Bytes}
    (hpath : impl.shlPathMap dl.dliFbase = some path) : path = dl.dliFname.getD unknownTag := by
  obtain ⟨info, -, -, rfl⟩ := find?_of_hit hhit
  simp only [Resolver.uncached, UnwProcInfo.mk.injEq, hdl, resolve, Option.map_some,
    Option.getD_some] at hfound
  obtain ⟨hshlPath, hshlAddr, -⟩ := hfound
  rwa [hshlAddr, hpath, Option.getD_some] at hshlPath

theorem exists_mem_insert (impl : Impl) (info : UnwProcNameInfo) :
    ∃ other ∈ (impl.insert info).procnameInfoMap, other.ip = info.ip := by
  obtain ⟨hany, hinsert⟩ | ⟨-, hinsert⟩ := insert_cases impl info
  · rw [hinsert]
    simpa using hany
  · rw [hinsert]
    exact ⟨info, by simp, rfl⟩

theorem getUnwProcInfoByIP_of_hit (resolver : Resolver) (hhit : impl.hit ip = some found) :
    impl.getUnwProcInfoByIP resolver ip = some found := by
  unfold getUnwProcInfoByIP getUnwProcInfo
  rw [hhit]

/-- A lookup that misses leaves an entry behind, and the recorded paths. -/
theorem exists_hit_of_miss (hmiss : impl.hit ip = none)
    (hfound : impl.getUnwProcInfoByIP resolver ip = some found) :
    (∃ next, found.2.hit ip = some next) ∧
      ∀ base path, impl.shlPathMap base = some path → found.2.shlPathMap base = some path := by
  unfold getUnwProcInfoByIP getUnwProcInfo at hfound
  rw [hmiss] at hfound
  obtain ⟨evicted, hevict, rfl⟩ := Option.map_eq_some_iff.mp hfound
  constructor
  · rw [← Option.ne_none_iff_exists', ne_eq, hit_eq_none_iff]
    intro hnone
    obtain ⟨other, hother, hip⟩ := exists_mem_insert evicted
      (resolve (resolver.getProcName ip) (resolver.dladdr ip) ip)
    exact hnone other hother hip
  · intro base path hpath
    rw [shlPathMap_insert, shlPathMap_of_evict hevict]
    unfold emplaceShlPath SymbolTable.emplace
    split
    · exact hpath
    · simp only
      split
      · next hbase => rw [← hbase, hpath, Option.some_or]
      · exact hpath

end Hit

theorem getUnwProcInfoByIP_isSome (resolver : Resolver) {impl : Impl}
    (hcap : 1 ≤ impl.cacheMaxSize) (ip : Address) :
    (impl.getUnwProcInfoByIP resolver ip).isSome :=
  getUnwProcInfo_isSome _ _ hcap ip

end Impl

/-! ## Loading and unloading -/

/-- A process that looks up symbols: what the loader and libunwind answer, and the
cache. -/
structure Process where
  resolver : Resolver
  impl : Impl

/-- The calls of the process, with the answers after those that change them. -/
inductive LoaderEvent
  | lookup (ip : Address)
  | dlopen (after : Resolver)
  | dlmopen (after : Resolver)
  | dlclose (after : Resolver)

namespace Process

/-- `memhook_dlopen` leaves the cache alone. -/
def memhookDlopen (after : Resolver) (process : Process) : Process :=
  { process with resolver := after }

def memhookDlmopen (after : Resolver) (process : Process) : Process :=
  { process with resolver := after }

/-- `memhook_dlclose` flushes the cache once the library is gone. -/
def memhookDlclose (after : Resolver) (process : Process) : Process :=
  ⟨after, process.impl.flushUnwCache⟩

/-- A lookup, and the process afterwards. -/
def lookup (ip : Address) (process : Process) : Option UnwProcInfo × Process :=
  match process.impl.getUnwProcInfoByIP process.resolver ip with
  | none => (none, process)
  | some found => (some found.1, { process with impl := found.2 })

def step (process : Process) : LoaderEvent → Process
  | .lookup ip => (process.lookup ip).2
  | .dlopen after => process.memhookDlopen after
  | .dlmopen after => process.memhookDlmopen after
  | .dlclose after => process.memhookDlclose after

/-- A lookup returns what an uncached resolution would return at this moment. -/
def Correct (process : Process) : LoaderEvent → Prop
  | .lookup ip => (process.lookup ip).1 = some (process.resolver.uncached ip)
  | _ => True

/-- The cache cannot tell that the answers have changed: those for the instruction
pointers it holds are the same, and the modules whose paths it holds have these paths. -/
structure Unnoticed (process : Process) (after : Resolver) : Prop where
  answer : ∀ info ∈ process.impl.procnameInfoMap,
    after.uncached info.ip = process.resolver.uncached info.ip
  path : ∀ {ip dl path}, after.dladdr ip = some dl →
    process.impl.shlPathMap dl.dliFbase = some path → path = dl.dliFname.getD unknownTag

/-- Loading a library changes nothing that is cached. -/
def Harmless (process : Process) : LoaderEvent → Prop
  | .dlopen after | .dlmopen after => process.Unnoticed after
  | _ => True

/-- What `dladdr` promises holds after every call. -/
def Consistent : LoaderEvent → Prop
  | .lookup _ => True
  | .dlopen after | .dlmopen after | .dlclose after => after.Consistent

/-- The cache has room and holds what the resolver answers. -/
structure InStep (process : Process) : Prop where
  resolver : process.resolver.Consistent
  coherent : process.impl.Coherent process.resolver
  room : 1 ≤ process.impl.cacheMaxSize

theorem lookup_of_eq_some (process : Process) {ip : Address} {found : UnwProcInfo × Impl}
    (hfound : process.impl.getUnwProcInfoByIP process.resolver ip = some found) :
    process.lookup ip = (some found.1, { process with impl := found.2 }) := by
  unfold lookup
  rw [hfound]

namespace InStep

variable {process : Process}

theorem exists_lookup (h : process.InStep) (ip : Address) :
    ∃ found, process.impl.getUnwProcInfoByIP process.resolver ip = some found ∧
      process.lookup ip = (some found.1, { process with impl := found.2 }) := by
  obtain ⟨found, hfound⟩ := Option.isSome_iff_exists.mp
    (Impl.getUnwProcInfoByIP_isSome process.resolver h.room ip)
  exact ⟨found, hfound, lookup_of_eq_some process hfound⟩

theorem lookup_fst (h : process.InStep) (ip : Address) :
    (process.lookup ip).1 = some (process.resolver.uncached ip) := by
  obtain ⟨found, hfound, hlookup⟩ := h.exists_lookup ip
  rw [hlookup, (h.coherent.getUnwProcInfoByIP h.resolver hfound).1]

theorem lookup_snd (h : process.InStep) (ip : Address) : (process.lookup ip).2.InStep := by
  obtain ⟨found, hfound, hlookup⟩ := h.exists_lookup ip
  rw [hlookup]
  refine ⟨h.resolver, (h.coherent.getUnwProcInfoByIP h.resolver hfound).2, ?_⟩
  rw [Impl.cacheMaxSize_of_getUnwProcInfo hfound]
  exact h.room

theorem dlopen (h : process.InStep) {after : Resolver} (hafter : after.Consistent)
    (hunnoticed : process.Unnoticed after) : (process.memhookDlopen after).InStep := by
  refine ⟨hafter, ⟨fun info hinfo => ?_, h.coherent.located, hunnoticed.path, h.coherent.null⟩,
    h.room⟩
  have hentry := h.coherent.entry info hinfo
  have hanswer := hunnoticed.answer info hinfo
  simp only [Resolver.uncached, UnwProcInfo.mk.injEq] at hanswer
  -- an entry is made of the parts of the answer
  have hresolve : Impl.resolve (after.getProcName info.ip) (after.dladdr info.ip) info.ip =
      Impl.resolve (process.resolver.getProcName info.ip) (process.resolver.dladdr info.ip)
        info.ip := by
    obtain ⟨-, hshlAddr, hprocname, hoffp⟩ := hanswer
    simp only [Impl.resolve, UnwProcNameInfo.mk.injEq] at hshlAddr hprocname hoffp ⊢
    exact ⟨hprocname, trivial, hoffp, hshlAddr⟩
  exact hentry.trans hresolve.symm

theorem step (h : process.InStep) {event : LoaderEvent} (hevent : Consistent event)
    (hharmless : process.Harmless event) : (process.step event).InStep := by
  cases event with
  | lookup ip => exact h.lookup_snd ip
  | dlopen after => exact h.dlopen hevent hharmless
  | dlmopen after => exact h.dlopen hevent hharmless
  | dlclose after => exact ⟨hevent, Impl.coherent_flushUnwCache after process.impl, h.room⟩

theorem correct (h : process.InStep) (event : LoaderEvent) : process.Correct event := by
  cases event with
  | lookup ip => exact h.lookup_fst ip
  | _ => exact trivial

end InStep

theorem inStep_new {cacheMaxSize : Option UInt64} (hcap : cacheMaxSize ≠ some 0)
    {resolver : Resolver} (hresolver : resolver.Consistent) :
    InStep ⟨resolver, Impl.new cacheMaxSize⟩ :=
  ⟨hresolver, Impl.coherent_new resolver cacheMaxSize, Impl.one_le_cacheMaxSize_new hcap⟩

/-! ## When loading a library is noticed -/

/-- Loading a library leaves every later lookup right exactly when it changes nothing that
is cached. -/
theorem correct_after_dlopen_iff {process : Process} (h : process.InStep) {after : Resolver}
    (hafter : after.Consistent) :
    (∀ ips : List Address, Run.Along step Correct (process.memhookDlopen after)
      (ips.map LoaderEvent.lookup)) ↔ process.Unnoticed after := by
  constructor
  · intro hcorrect
    have hcached : ∀ {ip found}, process.impl.hit ip = some found →
        found.1 = after.uncached ip := by
      intro ip found hhit
      have hlookup := lookup_of_eq_some (process.memhookDlopen after)
        (Impl.getUnwProcInfoByIP_of_hit after hhit)
      have hanswer : ((process.memhookDlopen after).lookup ip).1 = some (after.uncached ip) :=
        (hcorrect [ip]).1
      simpa [hlookup] using hanswer
    constructor
    · intro info hinfo
      cases hhit : process.impl.hit info.ip with
      | none => exact absurd rfl (Impl.hit_eq_none_iff.mp hhit info hinfo)
      | some found => rw [← hcached hhit, (h.coherent.hit h.resolver hhit).1]
    · intro ip dl path hdl hpath
      cases hhit : process.impl.hit ip with
      | some found => exact Impl.path_of_hit hhit (hcached hhit) hdl hpath
      | none =>
          -- the first lookup makes an entry, the second one finds it
          obtain ⟨found, hfound⟩ := Option.isSome_iff_exists.mp
            (Impl.getUnwProcInfoByIP_isSome after h.room ip)
          obtain ⟨⟨next, hnext⟩, hkept⟩ := Impl.exists_hit_of_miss hhit hfound
          refine Impl.path_of_hit hnext ?_ hdl (hkept _ _ hpath)
          have hfirst := lookup_of_eq_some (process.memhookDlopen after) hfound
          have hsecond := lookup_of_eq_some
            { process.memhookDlopen after with impl := found.2 }
            (Impl.getUnwProcInfoByIP_of_hit after hnext)
          have hanswer : (((process.memhookDlopen after).lookup ip).2.lookup ip).1 =
              some (((process.memhookDlopen after).lookup ip).2.resolver.uncached ip) :=
            (hcorrect [ip, ip]).2.1
          rw [hfirst, hsecond] at hanswer
          exact Option.some.inj hanswer
  · intro hunnoticed ips
    refine Run.Along.of_invariant (P := fun _ event => ∃ ip, event = .lookup ip) (I := InStep)
      ?_ (fun hstate _ => hstate.correct _) (h.dlopen hafter hunnoticed) (Run.Along.of_forall ?_)
    · rintro state _ hstate ⟨ip, rfl⟩
      exact hstate.lookup_snd ip
    · intro event hevent
      obtain ⟨ip, -, rfl⟩ := List.mem_map.mp hevent
      exact ⟨ip, rfl⟩

/-- **Coherence across library loading.**  In a run in which no library that is loaded
changes anything that is cached, every lookup returns what an uncached resolution would;
and after such a run the next library may be loaded exactly under this condition. -/
theorem lookups_eq_uncached {cacheMaxSize : Option UInt64} (hcap : cacheMaxSize ≠ some 0)
    {resolver : Resolver} (hresolver : resolver.Consistent) {events : List LoaderEvent}
    (hevents : ∀ event ∈ events, Consistent event)
    (hharmless : Run.Along step Harmless ⟨resolver, Impl.new cacheMaxSize⟩ events) :
    Run.Along step Correct ⟨resolver, Impl.new cacheMaxSize⟩ events ∧
      ∀ {after : Resolver}, after.Consistent →
        ((∀ ips : List Address, Run.Along step Correct
          ((events.foldl step ⟨resolver, Impl.new cacheMaxSize⟩).memhookDlopen after)
            (ips.map LoaderEvent.lookup)) ↔
          (events.foldl step ⟨resolver, Impl.new cacheMaxSize⟩).Unnoticed after) := by
  have hstart := inStep_new hcap hresolver
  have hconditions := (Run.Along.of_forall hevents).and hharmless
  constructor
  · exact Run.Along.of_invariant (I := InStep) (fun h hevent => h.step hevent.1 hevent.2)
      (fun h _ => h.correct _) hstart hconditions
  · intro after hafter
    have hfinal := Run.invariant (I := InStep) (fun h hevent => h.step hevent.1 hevent.2)
      hstart hconditions
    exact correct_after_dlopen_iff hfinal hafter

/-- Before a library is loaded nothing is known about the address `4100`. -/
def unloaded : Resolver := Resolver.silent

/-- The library is at `4096`, and `4100` is in its procedure `f`. -/
def loaded : Resolver where
  unwGetProcName ip := if ip = 4100 then some ([102], 4) else none
  getProcName ip := if ip = 4100 then some ([102], 4) else none
  dladdr ip := if ip = 4100 then some ⟨4096, some [108]⟩ else none

theorem consistent_unloaded : unloaded.Consistent := by
  constructor <;> simp [unloaded, Resolver.silent]

theorem consistent_loaded : loaded.Consistent := by
  constructor
  · intro ip ip' info info' hinfo hinfo' _
    unfold loaded at hinfo hinfo'
    simp only [Option.ite_none_right_eq_some, Option.some.injEq] at hinfo hinfo'
    rw [← hinfo.2, ← hinfo'.2]
  · intro ip info hinfo
    unfold loaded at hinfo
    simp only [Option.ite_none_right_eq_some, Option.some.injEq] at hinfo
    rw [← hinfo.2]
    decide

theorem lookups_eq_uncached_loaded :
    Run.Along step Correct ⟨unloaded, Impl.new none⟩ [.dlopen loaded, .lookup 4100] ∧
      ((Process.lookup 4100 ⟨loaded, Impl.new none⟩).1 = some ⟨[108], 4096, [102], 4⟩) := by
  refine ⟨(lookups_eq_uncached (by decide) consistent_unloaded ?_ ?_).1, by decide⟩
  · intro event hevent
    simp only [List.mem_cons, List.not_mem_nil, or_false] at hevent
    rcases hevent with rfl | rfl
    · exact consistent_loaded
    · exact trivial
  · exact ⟨⟨by simp [Impl.new], by simp [Impl.new]⟩, trivial, trivial⟩

/-- A lookup before the library is loaded leaves an answer that no lookup afterwards gets
rid of. -/
theorem stale_after_dlopen :
    ¬ ∀ (cacheMaxSize : Option UInt64) (resolver : Resolver) (events : List LoaderEvent),
      resolver.Consistent → (∀ event ∈ events, Consistent event) →
      Run.Along step Correct ⟨resolver, Impl.new cacheMaxSize⟩ events := by
  intro hall
  have hstale := hall none unloaded [.lookup 4100, .dlopen loaded, .lookup 4100]
    consistent_unloaded (by
      intro event hevent
      simp only [List.mem_cons, List.not_mem_nil, or_false] at hevent
      rcases hevent with rfl | rfl | rfl
      · exact trivial
      · exact consistent_loaded
      · exact trivial)
  have hanswer : (((Process.lookup 4100 ⟨unloaded, Impl.new none⟩).2.memhookDlopen loaded).lookup
      4100).1 ≠ some (loaded.uncached 4100) := by
    decide
  exact hanswer hstale.2.2.1

end Process

end Memhook
