import Memhook.Lib.Run
import Memhook.View.MappedView

/-!
# The symbols of stored frames

`memview` prints a stored frame with the name of its procedure and the path of its
module, which it looks up in the two symbol tables of the container.  The tables are
filled by `Add`, and neither `Remove` nor `Clear` takes an entry away.

`SymbolTableUpdater` enters the module of a frame only together with a new symbol.  So
the symbol of a frame is always there, but its module is missing when the instruction
pointer has been seen before under another module, as it can be after a library was
unloaded and another one loaded in its place.  `StorageCall.NamesModules` is the exact
condition on an `Add` under which this does not happen.
-/

namespace Memhook

open MultiIndex

namespace BasicMappedStorage

/-- Both lookups for a frame find an entry, and the viewer shows it. -/
def Resolves (storage : BasicMappedStorage) (item : TraceInfoCallStackItem) : Prop :=
  ∃ procname path, storage.symtab item.ip = some procname ∧
    storage.shltab item.shlAddr = some path ∧
    BasicMappedView.getProcName storage item.ip = procname ∧
    BasicMappedView.getModulePath storage item.shlAddr = path

/-- Every frame of every record can be resolved. -/
def Resolvable (storage : BasicMappedStorage) : Prop :=
  ∀ info ∈ storage.indexedContainer.items, ∀ item ∈ info.callstack, storage.Resolves item

/-- The frame is the first of the call stack at an instruction pointer without symbol. -/
def Introduces (storage : BasicMappedStorage) (callstack : CallStackInfo)
    (item : CallStackInfoItem) : Prop :=
  storage.symtab item.ip = none ∧
    ∃ before after, callstack = before ++ item :: after ∧ ∀ other ∈ before, other.ip ≠ item.ip

end BasicMappedStorage

/-- An `Add` of a new record: each frame has a module that is already known, or that is
the module of a frame which introduces its instruction pointer. -/
def StorageCall.NamesModules (storage : BasicMappedStorage) : StorageCall → Prop
  | add address _ callstack _ =>
      storage.indexedContainer.find? address = none → ∀ item ∈ callstack,
        (storage.shltab item.shlAddr).isSome ∨
          ∃ other, storage.Introduces callstack other ∧ other.shlAddr = item.shlAddr
  | _ => True

/-! ## The tables after an `Add` -/

namespace BasicMappedStorage

theorem resolves_iff (storage : BasicMappedStorage) (item : TraceInfoCallStackItem) :
    storage.Resolves item ↔
      (storage.symtab item.ip).isSome ∧ (storage.shltab item.shlAddr).isSome := by
  constructor
  · rintro ⟨procname, path, hsymbol, hmodule, -, -⟩
    simp [hsymbol, hmodule]
  · rintro ⟨hsymbol, hmodule⟩
    obtain ⟨procname, hprocname⟩ := Option.isSome_iff_exists.mp hsymbol
    obtain ⟨path, hpath⟩ := Option.isSome_iff_exists.mp hmodule
    refine ⟨procname, path, hprocname, hpath, ?_, ?_⟩
    · simp [BasicMappedView.getProcName, hprocname]
    · simp [BasicMappedView.getModulePath, hpath]

/-- A table that is left as it is because the key is there. -/
theorem isSome_of_known {table : SymbolTable} {known : Address} (hknown : table known ≠ none)
    (key : Address) : (table key).isSome ↔ key = known ∨ (table key).isSome := by
  constructor
  · exact .inr
  · rintro (rfl | h)
    · exact Option.isSome_iff_ne_none.mpr hknown
    · exact h

theorem isSome_symtab_symbolTableUpdater (storage : BasicMappedStorage)
    (item : CallStackInfoItem) (ip : Address) :
    ((storage.symbolTableUpdater item).symtab ip).isSome ↔
      ip = item.ip ∨ (storage.symtab ip).isSome := by
  unfold symbolTableUpdater
  split
  · exact SymbolTable.isSome_emplace storage.symtab item.ip ip item.procname
  · next hknown => exact isSome_of_known hknown ip

/-- The module is entered when the symbol is new, and only then. -/
theorem isSome_shltab_symbolTableUpdater (storage : BasicMappedStorage)
    (item : CallStackInfoItem) (base : Address) :
    ((storage.symbolTableUpdater item).shltab base).isSome ↔
      storage.symtab item.ip = none ∧ base = item.shlAddr ∨ (storage.shltab base).isSome := by
  unfold symbolTableUpdater
  split
  · next hnew =>
      simp only [hnew, true_and]
      split
      · exact SymbolTable.isSome_emplace storage.shltab item.shlAddr base item.shlPath
      · next hknown => exact isSome_of_known hknown base
  · next hknown => simp [hknown]

theorem isSome_symtab_foldl (callstack : CallStackInfo) (storage : BasicMappedStorage)
    (ip : Address) :
    ((callstack.foldl symbolTableUpdater storage).symtab ip).isSome ↔
      (∃ item ∈ callstack, item.ip = ip) ∨ (storage.symtab ip).isSome := by
  induction callstack generalizing storage with
  | nil => simp
  | cons item rest ih =>
      rw [List.foldl_cons, ih, isSome_symtab_symbolTableUpdater]
      constructor
      · rintro (⟨other, hother, rfl⟩ | rfl | h)
        · exact .inl ⟨other, List.mem_cons_of_mem _ hother, rfl⟩
        · exact .inl ⟨item, List.mem_cons_self .., rfl⟩
        · exact .inr h
      · rintro (⟨other, hother, rfl⟩ | h)
        · rcases List.mem_cons.mp hother with rfl | hother
          · exact .inr (.inl rfl)
          · exact .inl ⟨other, hother, rfl⟩
        · exact .inr (.inr h)

/-- Seen from behind its first frame, a call stack introduces what it introduces as a
whole, less the instruction pointer of that frame. -/
theorem introduces_cons (storage : BasicMappedStorage) (item other : CallStackInfoItem)
    (rest : CallStackInfo) :
    storage.Introduces (item :: rest) other ↔
      storage.symtab item.ip = none ∧ other = item ∨
        (storage.symbolTableUpdater item).Introduces rest other := by
  have hnone : (storage.symbolTableUpdater item).symtab other.ip = none ↔
      other.ip ≠ item.ip ∧ storage.symtab other.ip = none := by
    have h := isSome_symtab_symbolTableUpdater storage item other.ip
    rw [← not_iff_not] at h
    simpa [not_or] using h
  unfold Introduces
  rw [hnone]
  constructor
  · rintro ⟨hnew, before, after, hsplit, hbefore⟩
    cases before with
    | nil =>
        obtain ⟨rfl, rfl⟩ : item = other ∧ rest = after := by simpa using hsplit
        exact .inl ⟨hnew, rfl⟩
    | cons first before =>
        obtain ⟨rfl, rfl⟩ : item = first ∧ rest = before ++ other :: after := by
          simpa using hsplit
        obtain ⟨hfirst, hbefore⟩ := List.forall_mem_cons.mp hbefore
        exact .inr ⟨⟨Ne.symm hfirst, hnew⟩, before, after, rfl, hbefore⟩
  · rintro (⟨hnew, rfl⟩ | ⟨⟨hne, hnew⟩, before, after, rfl, hbefore⟩)
    · exact ⟨hnew, [], rest, rfl, by simp⟩
    · exact ⟨hnew, item :: before, after, rfl,
        List.forall_mem_cons.mpr ⟨Ne.symm hne, hbefore⟩⟩

/-- **The modules that are entered** are those of the frames that introduce their
instruction pointer. -/
theorem isSome_shltab_foldl (callstack : CallStackInfo) (storage : BasicMappedStorage)
    (base : Address) :
    ((callstack.foldl symbolTableUpdater storage).shltab base).isSome ↔
      (∃ item, storage.Introduces callstack item ∧ item.shlAddr = base) ∨
        (storage.shltab base).isSome := by
  induction callstack generalizing storage with
  | nil => simp [Introduces]
  | cons item rest ih =>
      rw [List.foldl_cons, ih, isSome_shltab_symbolTableUpdater]
      constructor
      · rintro (⟨other, hother, rfl⟩ | ⟨hnew, rfl⟩ | h)
        · exact .inl ⟨other, (introduces_cons ..).mpr (.inr hother), rfl⟩
        · exact .inl ⟨item, (introduces_cons ..).mpr (.inl ⟨hnew, rfl⟩), rfl⟩
        · exact .inr h
      · rintro (⟨other, hother, rfl⟩ | h)
        · rcases (introduces_cons ..).mp hother with ⟨hnew, rfl⟩ | hother
          · exact .inr (.inl ⟨hnew, rfl⟩)
          · exact .inl ⟨other, hother, rfl⟩
        · exact .inr (.inr h)

/-! ## One call -/

/-- The tables only grow. -/
theorem Resolves.foldl {storage : BasicMappedStorage} {item : TraceInfoCallStackItem}
    (h : storage.Resolves item) (callstack : CallStackInfo) :
    (callstack.foldl symbolTableUpdater storage).Resolves item := by
  rw [resolves_iff] at h ⊢
  rw [isSome_symtab_foldl, isSome_shltab_foldl]
  exact ⟨.inr h.1, .inr h.2⟩

theorem mem_items_add {storage : BasicMappedStorage} {address : Address} {memsize : UInt64}
    {callstack : CallStackInfo} {timestamp : TimePoint} {info : BasicTraceInfo} :
    info ∈ (storage.add address memsize callstack timestamp).indexedContainer.items ↔
      info ∈ storage.indexedContainer.items ∨
        storage.indexedContainer.find? address = none ∧
          info = .build address memsize timestamp callstack := by
  simp only [add, indexedContainer_foldl_symbolTableUpdater]
  by_cases hfind : storage.indexedContainer.find? address = none
  · rw [Container.emplace_items_of_none (by rwa [BasicTraceInfo.key_build]), mem_insertUpper]
    simp [hfind, or_comm]
  · have hsome : (storage.indexedContainer.find?
        (BasicTraceInfo.build address memsize timestamp callstack).key).isSome := by
      rw [BasicTraceInfo.key_build]
      exact Option.isSome_iff_ne_none.mpr hfind
    rw [Container.emplace_of_isSome hsome]
    simp [hfind]

theorem Resolvable.of_subset {storage storage' : BasicMappedStorage} (h : storage.Resolvable)
    (hitems : ∀ info ∈ storage'.indexedContainer.items,
      ∃ old ∈ storage.indexedContainer.items, info.callstack = old.callstack)
    (hsymtab : storage'.symtab = storage.symtab) (hshltab : storage'.shltab = storage.shltab) :
    storage'.Resolvable := by
  intro info hinfo item hitem
  obtain ⟨old, hold, hcallstack⟩ := hitems info hinfo
  have hresolves := h old hold item (hcallstack ▸ hitem)
  rw [resolves_iff] at hresolves ⊢
  rwa [hsymtab, hshltab]

theorem Resolvable.remove {storage : BasicMappedStorage} (h : storage.Resolvable)
    (address : Address) : (storage.remove address).1.Resolvable := by
  unfold BasicMappedStorage.remove
  split
  · exact h
  · refine h.of_subset (fun info hinfo => ⟨info, ?_, rfl⟩) rfl rfl
    exact List.mem_of_mem_filter hinfo

theorem Resolvable.updateSize {storage : BasicMappedStorage} (h : storage.Resolvable)
    (address : Address) (memsize : UInt64) :
    (storage.updateSize address memsize).1.Resolvable := by
  unfold BasicMappedStorage.updateSize
  split
  · exact h
  · refine h.of_subset (fun info hinfo => ?_) rfl rfl
    obtain ⟨old, hold, rfl⟩ := List.mem_map.mp hinfo
    refine ⟨old, hold, ?_⟩
    split <;> rfl

/-- The frames of a new record, and no others, may lack their module. -/
theorem Resolvable.add_iff {storage : BasicMappedStorage} (h : storage.Resolvable)
    (address : Address) (memsize : UInt64) (callstack : CallStackInfo) (timestamp : TimePoint) :
    (storage.add address memsize callstack timestamp).Resolvable ↔
      (StorageCall.add address memsize callstack timestamp).NamesModules storage := by
  have hnew : ∀ item ∈ callstack,
      (storage.add address memsize callstack timestamp).Resolves (.build item) ↔
        (storage.shltab item.shlAddr).isSome ∨
          ∃ other, storage.Introduces callstack other ∧ other.shlAddr = item.shlAddr := by
    intro item hitem
    rw [resolves_iff]
    -- the symbol is there in any case
    have hsymbol : ((callstack.foldl symbolTableUpdater storage).symtab item.ip).isSome :=
      (isSome_symtab_foldl ..).mpr (.inl ⟨item, hitem, rfl⟩)
    have hmodule := isSome_shltab_foldl callstack storage item.shlAddr
    exact ⟨fun hresolves => (hmodule.mp hresolves.2).symm,
      fun hnamed => ⟨hsymbol, hmodule.mpr hnamed.symm⟩⟩
  constructor
  · intro hresolvable hfind item hitem
    refine (hnew item hitem).mp (hresolvable _ (mem_items_add.mpr (.inr ⟨hfind, rfl⟩)) _ ?_)
    exact List.mem_map_of_mem hitem
  · intro hnames info hinfo frame hframe
    rcases mem_items_add.mp hinfo with hold | ⟨hfind, rfl⟩
    · exact (h info hold frame hframe).foldl callstack
    · obtain ⟨item, hitem, rfl⟩ := List.mem_map.mp hframe
      exact (hnew item hitem).mpr (hnames hfind item hitem)

theorem Resolvable.apply_iff {storage : BasicMappedStorage} (h : storage.Resolvable)
    (call : StorageCall) : (call.apply storage).Resolvable ↔ call.NamesModules storage := by
  cases call with
  | add address memsize callstack timestamp =>
      exact h.add_iff address memsize callstack timestamp
  | remove address => exact ⟨fun _ => trivial, fun _ => h.remove address⟩
  | updateSize address memsize => exact ⟨fun _ => trivial, fun _ => h.updateSize address memsize⟩
  | clear =>
      refine ⟨fun _ => trivial, fun _ info hinfo => ?_⟩
      exact absurd hinfo List.not_mem_nil
  | flush => exact ⟨fun _ => trivial, fun _ => h⟩

/-! ## Whole runs -/

/-- **Every stored frame can be resolved**, throughout a run of calls on a fresh storage,
if and only if each `Add` names the modules of its frames. -/
theorem resolvable_iff_namesModules (calls : List StorageCall) :
    (∀ before, before <+: calls → (before.foldl StorageCall.apply empty).Resolvable) ↔
      Run.Along StorageCall.apply (fun storage call => call.NamesModules storage) empty calls :=
  Run.forall_prefix_iff (fun h => h.apply_iff _) fun _ hinfo => absurd hinfo List.not_mem_nil

/-- Two records with a frame at the same instruction pointer, in different modules. -/
def reloadedCalls : List StorageCall :=
  [.add 16 8 [⟨[97], [102], 4096, 4100, 1, 4⟩] 1, .add 32 8 [⟨[98], [103], 8192, 4100, 1, 4⟩] 2]

/-- The path of the second module is not entered, and the viewer shows `<unknown>`. -/
theorem reloaded_module_missing :
    ¬ (reloadedCalls.foldl StorageCall.apply empty).Resolvable ∧
      (reloadedCalls.foldl StorageCall.apply empty).shltab 8192 = none ∧
      BasicMappedView.getModulePath (reloadedCalls.foldl StorageCall.apply empty) 8192 =
        BasicMappedView.unknown := by
  have hmissing : (reloadedCalls.foldl StorageCall.apply empty).shltab 8192 = none := by decide
  refine ⟨?_, hmissing, by decide⟩
  intro hresolvable
  have hinfo : (.build 32 8 2 [⟨[98], [103], 8192, 4100, 1, 4⟩] : BasicTraceInfo) ∈
      (reloadedCalls.foldl StorageCall.apply empty).indexedContainer.items := by decide
  have hresolves := (resolves_iff _ _).mp (hresolvable _ hinfo _ (List.mem_cons_self ..))
  rw [show (TraceInfoCallStackItem.build ⟨[98], [103], 8192, 4100, 1, 4⟩).shlAddr = 8192 from rfl,
    hmissing] at hresolves
  simp at hresolves

end BasicMappedStorage

end Memhook
