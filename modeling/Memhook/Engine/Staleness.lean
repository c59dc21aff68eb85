import Memhook.Engine.Lookups

/-!
# Is a flush final?

`memhook_dlclose` closes the library and then flushes the symbol cache, so that no later
lookup is told about the library.  A lookup of another thread, however, may have asked
libunwind or `dladdr` before the library was closed and insert what it was told after the
flush.  `NothingPending` excludes this for each flush; then everything in the cache is at
least as recent as the last library whose `memhook_dlclose` has returned, and every lookup
returns only such information.
-/

namespace Memhook

/-- When the information that a thread carries was resolved. -/
def LookupPc.ages : LookupPc → List ℕ
  | locating _ _ _ named => [named]
  | recording _ resolution _ | evicting resolution | inserting _ resolution =>
      [resolution.named, resolution.located]
  | idle | finding .. | naming .. | flushing _ => []

/-- The library whose `memhook_dlclose` is about to flush the cache. -/
def LookupPc.closed? : LookupPc → Option ℕ
  | flushing closed => some closed
  | _ => none

namespace LookupMachine

variable {T : Type*} [DecidableEq T]

/-- When the information was resolved that the next step of a thread returns, if it
returns. -/
def returned (machine : LookupMachine T) (t : T) : List ℕ :=
  match machine.pc t with
  | .finding _ ip =>
      match machine.impl.procnameInfoMap.find? fun info => info.ip = ip with
      | none => []
      | some info =>
          [(machine.stamp ip).1, (machine.stamp ip).2] ++
            if (machine.impl.shlPathMap info.shlAddr).isSome then [machine.pathStamp info.shlAddr]
            else []
  | .inserting _ resolution => [resolution.named, resolution.located]
  | _ => []

/-- A lookup returns nothing that was resolved before a library was closed whose
`memhook_dlclose` had returned when the lookup began. -/
def Fresh (machine : LookupMachine T) : LookupEvent T → Prop
  | .advance t _ _ => ∀ age ∈ machine.returned t, machine.since t ≤ age
  | _ => True

instance (machine : LookupMachine T) : DecidablePred machine.Fresh
  | .advance .. => inferInstanceAs (Decidable (∀ age ∈ _, _))
  | .lookup .. | .dlclose _ => isTrue trivial

/-- When the cache is flushed, no thread carries information from before the library was
closed. -/
def NothingPending (machine : LookupMachine T) : LookupEvent T → Prop
  | .advance t _ _ =>
      ∀ closed ∈ (machine.pc t).closed?, ∀ t', ∀ age ∈ (machine.pc t').ages, closed ≤ age
  | _ => True

instance [Fintype T] (machine : LookupMachine T) : DecidablePred machine.NothingPending
  | .advance .. => inferInstanceAs (Decidable (∀ closed ∈ _, ∀ _, ∀ age ∈ _, _))
  | .lookup .. | .dlclose _ => isTrue trivial

/-- All information is at least as recent as the last library whose `memhook_dlclose` has
returned. -/
structure Current (machine : LookupMachine T) : Prop where
  horizon : machine.horizon ≤ machine.epoch
  entries : ∀ info ∈ machine.impl.procnameInfoMap,
    machine.horizon ≤ (machine.stamp info.ip).1 ∧ machine.horizon ≤ (machine.stamp info.ip).2
  paths : ∀ base, (machine.impl.shlPathMap base).isSome → machine.horizon ≤ machine.pathStamp base
  threads : ∀ t, ∀ age ∈ (machine.pc t).ages, machine.horizon ≤ age
  closing : ∀ t closed, machine.pc t = .flushing closed → closed ≤ machine.epoch
  since : ∀ t, machine.since t ≤ machine.horizon

omit [DecidableEq T] in
theorem current_initial (cacheMaxSize : Option UInt64) :
    (initial cacheMaxSize : LookupMachine T).Current := by
  constructor <;> simp [initial, Impl.new, LookupPc.ages]

namespace Current

variable {machine : LookupMachine T} {t : T}

theorem goto (h : machine.Current) (t : T) {pc : LookupPc}
    (hages : ∀ age ∈ pc.ages, machine.horizon ≤ age)
    (hclosing : ∀ closed, pc = .flushing closed → closed ≤ machine.epoch) :
    (machine.goto t pc).Current := by
  refine ⟨h.horizon, h.entries, h.paths, fun t' => ?_, fun t' closed hpc => ?_, h.since⟩
  · rw [pc_goto]
    split
    · exact hages
    · exact h.threads t'
  · rw [pc_goto] at hpc
    split at hpc
    · exact hclosing closed hpc
    · exact h.closing t' closed hpc

theorem answer (h : machine.Current) (t : T) (result : UnwProcInfo) :
    (machine.answer t result).Current := by
  unfold LookupMachine.answer
  refine goto ?_ t (by simp [LookupPc.ages]) (by simp)
  exact ⟨h.horizon, h.entries, h.paths, h.threads, h.closing, h.since⟩

omit [DecidableEq T] in
/-- A cache with fewer entries. -/
theorem shrink (h : machine.Current) {impl : Impl}
    (hentries : ∀ info ∈ impl.procnameInfoMap, info ∈ machine.impl.procnameInfoMap)
    (hpaths : impl.shlPathMap = machine.impl.shlPathMap) :
    ({ machine with impl := impl } : LookupMachine T).Current := by
  refine ⟨h.horizon, fun info hinfo => h.entries info (hentries info hinfo), ?_, h.threads,
    h.closing, h.since⟩
  rw [hpaths]
  exact h.paths

theorem find (h : machine.Current) (t : T) (kind : LookupKind) (ip : Address) :
    (machine.find t kind ip).Current := by
  unfold LookupMachine.find
  split
  next found hhit =>
    exact (h.shrink (fun _ hinfo => (Impl.perm_of_hit hhit).mem_iff.mp hinfo)
      (Impl.shlPathMap_of_hit hhit)).answer t found.1
  next => exact h.goto t (by simp [LookupPc.ages]) (by simp)

theorem goto_recorded (h : machine.Current) (t : T) (kind : LookupKind) {resolution : Resolution}
    (hnamed : machine.horizon ≤ resolution.named)
    (hlocated : machine.horizon ≤ resolution.located) :
    (machine.goto t (.recorded kind resolution)).Current := by
  cases kind <;> exact h.goto t (by simp [LookupPc.recorded, LookupPc.ages, hnamed, hlocated])
    (by simp [LookupPc.recorded])

theorem locate (h : machine.Current) (t : T) (kind : LookupKind) (ip : Address)
    (procName : Option (Bytes × Address)) {named : ℕ} (hnamed : machine.horizon ≤ named)
    (dlInfo : Option DlInfo) : (machine.locate t kind ip procName named dlInfo).Current := by
  cases dlInfo with
  | none => exact h.goto_recorded t kind hnamed h.horizon
  | some info => exact h.goto t (by simp [LookupPc.ages, hnamed, h.horizon]) (by simp)

theorem record (h : machine.Current) (t : T) (kind : LookupKind) {resolution : Resolution}
    (hnamed : machine.horizon ≤ resolution.named) (hlocated : machine.horizon ≤ resolution.located)
    (dlInfo : DlInfo) : (machine.record t kind resolution dlInfo).Current := by
  unfold LookupMachine.record
  refine goto_recorded ?_ t kind hnamed hlocated
  refine ⟨h.horizon, h.entries, fun base hbase => ?_, h.threads, h.closing, h.since⟩
  simp only
  rcases (SymbolTable.isSome_emplace ..).mp hbase with rfl | hold
  · -- a path that was there keeps its stamp
    split
    next hold => exact h.paths _ hold
    next => rwa [Function.update_self]
  · split
    next => exact h.paths base hold
    next hnone =>
      have hne : base ≠ dlInfo.dliFbase := fun heq => hnone (heq ▸ hold)
      rw [Function.update_of_ne hne]
      exact h.paths base hold

theorem insert (h : machine.Current) (t : T) {resolution : Resolution}
    (hnamed : machine.horizon ≤ resolution.named)
    (hlocated : machine.horizon ≤ resolution.located) : (machine.insert t resolution).Current := by
  unfold LookupMachine.insert
  refine answer ?_ t _
  refine ⟨h.horizon, fun info hinfo => ?_, fun base hbase => ?_, h.threads, h.closing, h.since⟩
  · simp only
    split
    next hany =>
      -- the entry of the other thread stays
      refine h.entries info ?_
      obtain ⟨-, hinsert⟩ | ⟨hnone, -⟩ := Impl.insert_cases machine.impl resolution.info
      · rwa [hinsert] at hinfo
      · exact absurd hany hnone
    next hnone =>
      by_cases heq : info.ip = resolution.info.ip
      · rw [heq, Function.update_self]
        exact ⟨hnamed, hlocated⟩
      · rw [Function.update_of_ne heq]
        rcases Impl.mem_of_mem_insert hinfo with hold | rfl
        · exact h.entries info hold
        · exact absurd rfl heq
  · rw [Impl.shlPathMap_insert] at hbase
    exact h.paths base hbase

omit [DecidableEq T] in
theorem evict (h : machine.Current) {next : LookupMachine T → LookupMachine T}
    (hnext : ∀ {evicted}, ({ machine with impl := evicted } : LookupMachine T).Current →
      (next { machine with impl := evicted }).Current) : (machine.evict next).Current := by
  unfold LookupMachine.evict
  split
  next evicted hevict =>
    exact hnext (h.shrink (fun _ hinfo => Impl.mem_of_evict hevict hinfo)
      (Impl.shlPathMap_of_evict hevict))
  next => exact ⟨h.horizon, h.entries, h.paths, h.threads, h.closing, h.since⟩

/-- The step that `NothingPending` is about. -/
theorem flush (h : machine.Current) (t : T) {closed : ℕ} (hclosed : closed ≤ machine.epoch)
    (hpending : ∀ t', ∀ age ∈ (machine.pc t').ages, closed ≤ age) :
    (machine.flush t closed).Current := by
  unfold LookupMachine.flush
  refine goto ?_ t (by simp [LookupPc.ages]) (by simp)
  refine ⟨max_le h.horizon hclosed, ?_, ?_, fun t' age hage => ?_, h.closing, fun t' => ?_⟩
  · simp [Impl.flushUnwCache]
  · simp [Impl.flushUnwCache]
  · exact max_le (h.threads t' age hage) (hpending t' age hage)
  · exact (h.since t').trans (le_max_left _ _)

theorem advance (h : machine.Current) (t : T) (procName : Option (Bytes × Address))
    (dlInfo : Option DlInfo) (hpending : machine.NothingPending (.advance t procName dlInfo)) :
    (machine.advance t procName dlInfo).Current := by
  have hages := h.threads t
  have hclosing := h.closing t
  unfold LookupMachine.advance
  split
  next => exact h
  next kind ip _ => exact h.find t kind ip
  next kind ip _ => exact h.goto t (by simp [LookupPc.ages, h.horizon]) (by simp)
  next kind ip procName named hpc =>
    rw [hpc] at hages
    exact h.locate t kind ip procName (hages named (by simp [LookupPc.ages])) dlInfo
  next kind resolution info hpc =>
    rw [hpc] at hages
    exact h.record t kind (hages _ (by simp [LookupPc.ages])) (hages _ (by simp [LookupPc.ages]))
      info
  next resolution hpc =>
    rw [hpc] at hages
    exact h.evict fun hevicted => hevicted.goto t hages (by simp)
  next resolution hpc =>
    rw [hpc] at hages
    exact h.insert t (hages _ (by simp [LookupPc.ages])) (hages _ (by simp [LookupPc.ages]))
  next resolution hpc =>
    rw [hpc] at hages
    exact h.evict fun hevicted => hevicted.insert t (hages _ (by simp [LookupPc.ages]))
      (hages _ (by simp [LookupPc.ages]))
  next closed hpc =>
    exact h.flush t (hclosing closed hpc) (hpending closed (by rw [hpc]; rfl))

theorem step (h : machine.Current) {event : LookupEvent T}
    (hpending : machine.NothingPending event) : (machine.step event).Current := by
  unfold LookupMachine.step
  split
  next => exact h
  next =>
    cases event with
    | advance t procName dlInfo => exact h.advance t procName dlInfo hpending
    | lookup t kind ip =>
        simp only
        split
        · refine goto ?_ t (by simp [LookupPc.ages]) (by simp)
          refine ⟨h.horizon, h.entries, h.paths, h.threads, h.closing, fun t' => ?_⟩
          simp only [Function.update_apply]
          split
          · exact le_rfl
          · exact h.since t'
        · exact h
    | dlclose t =>
        simp only
        split
        · refine goto ?_ t (by simp [LookupPc.ages]) (by simp)
          refine ⟨h.horizon.trans (Nat.le_succ _), h.entries, h.paths, h.threads, ?_, h.since⟩
          intro t' closed hpc
          exact (h.closing t' closed hpc).trans (Nat.le_succ _)
        · exact h

omit [DecidableEq T] in
/-- What a lookup returns is in the cache, or it has just been resolved. -/
theorem fresh (h : machine.Current) (event : LookupEvent T) : machine.Fresh event := by
  cases event with
  | advance t procName dlInfo =>
      intro age hage
      refine (h.since t).trans ?_
      unfold returned at hage
      split at hage
      next kind ip _ =>
        split at hage
        · simp at hage
        · next info hfind =>
            have hip : info.ip = ip := by simpa using List.find?_some hfind
            obtain ⟨hnamed, hlocated⟩ := h.entries info (List.mem_of_find?_eq_some hfind)
            rw [hip] at hnamed hlocated
            simp only [List.mem_append, List.mem_cons, List.not_mem_nil, or_false] at hage
            rcases hage with (rfl | rfl) | hpath
            · exact hnamed
            · exact hlocated
            · split at hpath
              next hsome => exact List.mem_singleton.mp hpath ▸ h.paths info.shlAddr hsome
              next => simp at hpath
      next kind resolution hpc =>
        have hages := h.threads t
        rw [hpc] at hages
        exact hages age hage
      next => simp at hage
  | _ => exact trivial

end Current

/-! ## What a thread carries past a flush -/

section Carried

variable {machine : LookupMachine T} {t t' : T}

/-- The thread carries this information to its insertion. -/
def Carries (machine : LookupMachine T) (t : T) (named located : ℕ) : Prop :=
  (∃ kind ip procName, machine.pc t = .locating kind ip procName named ∧ located = machine.epoch) ∨
    ∃ resolution : Resolution, resolution.named = named ∧ resolution.located = located ∧
      ((∃ kind info, machine.pc t = .recording kind resolution info) ∨
        machine.pc t = .evicting resolution ∨ ∃ kind, machine.pc t = .inserting kind resolution)

omit [DecidableEq T] in
theorem exists_carries {age : ℕ} (hage : age ∈ (machine.pc t).ages) :
    ∃ named located, machine.Carries t named located ∧ (age = named ∨ age = located) := by
  cases hpc : machine.pc t with
  | locating kind ip procName named =>
      rw [hpc] at hage
      exact ⟨named, machine.epoch, .inl ⟨kind, ip, procName, hpc, rfl⟩,
        .inl (List.mem_singleton.mp hage)⟩
  | recording kind resolution info =>
      rw [hpc] at hage
      exact ⟨_, _, .inr ⟨resolution, rfl, rfl, .inl ⟨kind, info, hpc⟩⟩,
        by simpa [LookupPc.ages] using hage⟩
  | evicting resolution =>
      rw [hpc] at hage
      exact ⟨_, _, .inr ⟨resolution, rfl, rfl, .inr (.inl hpc)⟩,
        by simpa [LookupPc.ages] using hage⟩
  | inserting kind resolution =>
      rw [hpc] at hage
      exact ⟨_, _, .inr ⟨resolution, rfl, rfl, .inr (.inr ⟨kind, hpc⟩)⟩,
        by simpa [LookupPc.ages] using hage⟩
  | _ => simp [hpc, LookupPc.ages] at hage

/-- Another thread goes on until it has inserted its entry. -/
def insertion (t' : T) : List (LookupEvent T) := List.replicate 3 (.advance t' none none)

/-- After a flush, a thread that carries information leaves an entry with it. -/
theorem carried_entry (closed : ℕ) (hok : machine.faulted = false)
    (hroom : 1 ≤ machine.impl.cacheMaxSize) (hne : t ≠ t') {named located : ℕ}
    (hcarries : machine.Carries t' named located) :
    ∃ ip info, ((insertion t').foldl step (machine.flush t closed)).faulted = false ∧
      ((insertion t').foldl step (machine.flush t closed)).pc t = .idle ∧
      ((insertion t').foldl step (machine.flush t closed)).horizon =
        max machine.horizon closed ∧
      ((insertion t').foldl step (machine.flush t closed)).stamp ip = (named, located) ∧
      (((insertion t').foldl step (machine.flush t closed)).impl.procnameInfoMap.find?
        fun info => info.ip = ip) = some info := by
  have hfew : ¬ machine.impl.cacheMaxSize ≤ 0 := by omega
  rcases hcarries with ⟨kind, ip, procName, hpc, rfl⟩ | ⟨resolution, rfl, rfl, hpc⟩
  · refine ⟨ip, Impl.resolve procName none ip, ?_⟩
    cases kind <;>
      simp [insertion, step, advance, flush, goto, hok, hpc, hne, hne.symm, locate,
        LookupPc.recorded, evict, insert, answer, Impl.evict, Impl.insert, Impl.flushUnwCache,
        hfew, Impl.resolve]
  · refine ⟨resolution.info.ip, resolution.info, ?_⟩
    rcases hpc with ⟨kind, info, hpc⟩ | hpc | ⟨kind, hpc⟩
    · cases kind <;>
        simp [insertion, step, advance, flush, goto, hok, hpc, hne, hne.symm, record,
          LookupPc.recorded, evict, insert, answer, Impl.evict, Impl.insert, Impl.flushUnwCache,
          Impl.emplaceShlPath, hfew]
    · simp [insertion, step, advance, flush, goto, hok, hpc, hne, hne.symm, evict, insert, answer,
        Impl.evict, Impl.insert, Impl.flushUnwCache, hfew]
    · cases kind <;>
        simp [insertion, step, advance, flush, goto, hok, hpc, hne, hne.symm, evict, insert,
          answer, Impl.evict, Impl.insert, Impl.flushUnwCache, hfew]

/-- If a thread carries older information past a flush, the thread that has flushed can
be told it. -/
theorem nothingPending_of_fresh (hok : machine.faulted = false)
    (hroom : 1 ≤ machine.impl.cacheMaxSize) {event : LookupEvent T}
    (hfresh : ∀ events, Run.Along step Fresh (machine.step event) events) :
    machine.NothingPending event := by
  cases event with
  | advance t procName dlInfo =>
      intro closed hclosed t' age hage
      have hpc : machine.pc t = .flushing closed := by
        cases hpc : machine.pc t <;> simp [hpc, LookupPc.closed?] at hclosed
        rw [hclosed]
      have hne : t ≠ t' := by
        rintro rfl
        simp [hpc, LookupPc.ages] at hage
      have hflush : machine.step (.advance t procName dlInfo) = machine.flush t closed := by
        simp [step, advance, hok, hpc]
      rw [hflush] at hfresh
      obtain ⟨named, located, hcarries, hage⟩ := exists_carries hage
      obtain ⟨ip, info, hfine, hidle, hhorizon, hstamp, hfind⟩ :=
        carried_entry closed hok hroom hne hcarries
      -- the thread that has flushed looks up the new entry
      have hrun := (hfresh (insertion t' ++
        [.lookup t .getUnwProcInfoByIP ip, .advance t none none])).of_append.2.1
      simp only [step, hfine, hidle, Bool.false_eq_true, if_false, Fresh, returned, pc_goto,
        if_true] at hrun
      simp only [goto, hfind, hstamp, hhorizon, Function.update_self] at hrun
      have hnamed : closed ≤ named := (le_max_right _ _).trans (hrun named (by simp))
      have hlocated : closed ≤ located := (le_max_right _ _).trans (hrun located (by simp))
      rcases hage with rfl | rfl
      · exact hnamed
      · exact hlocated
  | _ => exact trivial

end Carried

/-- **A flush is final** in every interleaving in which no thread carries older
information past a flush; and after such a run, an event that lets a thread do so can be
followed by a lookup that is told it. -/
theorem lookups_fresh (cacheMaxSize : Option UInt64) {events : List (LookupEvent T)}
    (hpending : Run.Along step NothingPending (initial cacheMaxSize) events) :
    Run.Along step Fresh (initial cacheMaxSize) events ∧
      ((events.foldl step (initial cacheMaxSize)).faulted = false → cacheMaxSize ≠ some 0 →
        ∀ event, (∀ later, Run.Along step Fresh
            ((events.foldl step (initial cacheMaxSize)).step event) later) →
          (events.foldl step (initial cacheMaxSize)).NothingPending event) := by
  refine ⟨Run.Along.of_invariant (fun h hevent => h.step hevent) (fun h _ => h.fresh _)
    (current_initial cacheMaxSize) hpending, ?_⟩
  intro hok hcap event hfresh
  have hsize : (events.foldl step (initial cacheMaxSize)).impl.cacheMaxSize =
      (Impl.new cacheMaxSize).cacheMaxSize :=
    Run.invariant (P := fun _ _ => True)
      (I := fun machine : LookupMachine T =>
        machine.impl.cacheMaxSize = (Impl.new cacheMaxSize).cacheMaxSize)
      (fun h _ => (cacheMaxSize_step _ _).trans h) rfl (Run.Along.of_forall fun _ _ => trivial)
  exact nothingPending_of_fresh hok (hsize ▸ Impl.one_le_cacheMaxSize_new hcap) hfresh

/-- A library is closed before one thread asks about 4100; the other one finds the
entry. -/
def askedAfter : List (LookupEvent Bool) :=
  [.dlclose true, .advance true none none] ++
    soloLookup false .getUnwProcInfoByIP 4100 (some ([102], 4)) (some ⟨4096, some [108]⟩) ++
    [.lookup true .getUnwProcInfoByIP 4100, .advance true none none]

theorem lookups_fresh_askedAfter :
    Run.Along step Fresh (initial none) askedAfter ∧
      (askedAfter.foldl step (initial none)).result true = some ⟨[108], 4096, [102], 4⟩ :=
  ⟨(lookups_fresh none (by decide)).1, by decide⟩

/-- The first thread asks about 4100, the second one closes a library, the first one
inserts what it was told after the flush, and the second one looks it up. -/
def askedBefore : List (LookupEvent Bool) :=
  [.lookup false .getUnwProcInfoByIP 4100] ++
    List.replicate 3 (.advance false (some ([102], 4)) (some ⟨4096, some [108]⟩)) ++
    [.dlclose true, .advance true none none, .advance false none none, .advance false none none,
      .lookup true .getUnwProcInfoByIP 4100, .advance true none none]

/-- The second thread is told about the library it has closed. -/
theorem stale_after_dlclose :
    ¬ Run.Along step Fresh (initial none) askedBefore ∧
      (askedBefore.foldl step (initial none)).result true = some ⟨[108], 4096, [102], 4⟩ := by
  decide

end LookupMachine

end Memhook
