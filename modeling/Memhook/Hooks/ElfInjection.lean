import Memhook.Glibc.Hashes
import Memhook.Lib.Run
import Mathlib.Data.Fintype.Pi
import Mathlib.Data.List.TakeWhile

/-!
# Redirecting the imports of loaded objects

`ElfInject` of `src/memhook/elf_injection.cpp`, on x86-64.  A library that is loaded into a
running process has missed the moment in which the dynamic linker bound the imports, so
`ElfInject` goes through the loaded objects and overwrites the slots of the functions that it
wraps: for each relocation of the procedure linkage table it compares the name of the symbol
with the table `s_wrapped_functions`.  A slot that does not hold the wrapper yet is made
writable, by its page, and stored to.

What an object imports is said from the format (`PltSlot`): which relocations `DT_JMPREL` and
`DT_PLTRELSZ` give, and of which symbol each is.  Slots that other relocation tables are about,
such as those of `DT_RELA` for the addresses of functions in data, are no such slots, and
`ElfInject` does not look at them.

The dynamic sections, the relocations, the symbols and the strings are only read; they are
given by what stands at an address (`ElfImage`).  The slots are in a memory of bytes.  A pointer
is its eight bytes.
-/

namespace Memhook

/-! ## The tables of an object -/

/-- `ElfW(Dyn)`. -/
structure ElfDyn where
  dTag : Int64
  dUn : UInt64

/-- `ElfW(Rela)`, as far as it is read. -/
structure ElfRela where
  rOffset : UInt64
  rInfo : UInt64

/-- `ElfW(Phdr)`, as far as it is read. -/
structure ElfPhdr where
  pType : UInt32
  pVaddr : UInt64

/-- `dl_phdr_info`. -/
structure DlPhdrInfo where
  dlpiAddr : UInt64
  dlpiName : Option CString
  dlpiPhdr : List ElfPhdr

/-- What stands at an address, of what is only read. -/
structure ElfImage where
  /-- The entries of a dynamic section from an address on. -/
  dyn : UInt64 → List ElfDyn
  rela : UInt64 → ElfRela
  /-- `st_name` of the symbol at an address. -/
  stName : UInt64 → UInt32
  str : UInt64 → CString

def ptDynamic : UInt32 := 2
def dtNull : Int64 := 0
def dtPltrelsz : Int64 := 2
def dtStrtab : Int64 := 5
def dtSymtab : Int64 := 6
def dtJmprel : Int64 := 23

def sizeofElfRela : UInt64 := 24
def sizeofElfSym : UInt64 := 24

/-- What the loop over a dynamic section collects. -/
structure DynTables where
  strTable : UInt64
  symTable : UInt64
  relTable : UInt64
  relTableSize : UInt64

namespace DynTables

/-- The `switch` on `d_tag`. -/
def read (tables : DynTables) (d : ElfDyn) : DynTables :=
  if d.dTag = dtStrtab then { tables with strTable := d.dUn }
  else if d.dTag = dtJmprel then { tables with relTable := d.dUn }
  else if d.dTag = dtSymtab then { tables with symTable := d.dUn }
  else if d.dTag = dtPltrelsz then { tables with relTableSize := d.dUn }
  else tables

/-- The loop over a dynamic section. -/
def ofDynamic (dyn : List ElfDyn) : DynTables :=
  (dyn.takeWhile fun d => d.dTag ≠ dtNull).foldl read ⟨0, 0, 0, 0⟩

/-- How often `rel < rel_table_end` holds. -/
def relCount (tables : DynTables) : ℕ :=
  ((tables.relTable + tables.relTableSize).toNat - tables.relTable.toNat +
    (sizeofElfRela.toNat - 1)) / sizeofElfRela.toNat

/-- The relocations that the loop visits. -/
def relocations (image : ElfImage) (tables : DynTables) : List ElfRela :=
  (List.range tables.relCount).map fun i =>
    image.rela (tables.relTable + sizeofElfRela * UInt64.ofNat i)

/-- `sym_name`, by `ELF64_R_SYM`. -/
def symName (image : ElfImage) (tables : DynTables) (rel : ElfRela) : CString :=
  let symIndex : UInt32 := (rel.rInfo >>> 32).toUInt32
  image.str (tables.strTable +
    (image.stName (tables.symTable + sizeofElfSym * symIndex.toUInt64)).toUInt64)

end DynTables

/-! ## The injection -/

/-- A pointer, as it stands in memory. -/
abbrev PointerBytes := Fin 8 → UInt8

/-- `WrappedFunctionInfo`. -/
structure WrappedFunctionInfo where
  name : CString
  func : PointerBytes

/-- A literal, by its characters. -/
def CString.ofString (s : String) : CString :=
  ⟨(s.toList.map fun c => c.val.toUInt8).filter (· ≠ 0), by simp⟩

/-- The names of `s_wrapped_functions`, by what the system has. -/
def wrappedNames (haveCfree haveAlignedAlloc haveValloc havePvalloc : Bool) : List String :=
  ["free", "malloc", "calloc", "realloc", "memalign", "posix_memalign"] ++
    (if haveCfree then ["cfree"] else []) ++
    (if haveAlignedAlloc then ["aligned_alloc"] else []) ++
    (if haveValloc then ["valloc"] else []) ++ (if havePvalloc then ["pvalloc"] else []) ++
    ["mmap", "mmap64", "mremap", "munmap", "dlopen", "dlmopen", "dlclose", "dlsym", "dlvsym",
      "dl_iterate_phdr", "getaddrinfo", "getnameinfo", "gethostbyname", "gethostbyaddr",
      "gethostbyname2", "gethostent_r", "gethostbyaddr_r", "gethostbyname_r", "gethostbyname2_r",
      "getpwent_r", "getpwuid_r", "getpwnam_r"]

/-- `s_wrapped_functions`, for the addresses of the wrappers. -/
def sWrappedFunctions (haveCfree haveAlignedAlloc haveValloc havePvalloc : Bool)
    (address : String → PointerBytes) : List WrappedFunctionInfo :=
  (wrappedNames haveCfree haveAlignedAlloc haveValloc havePvalloc).map fun name =>
    ⟨.ofString name, address name⟩

/-- The memory, and the pages that `mprotect` was called for. -/
structure Injection where
  memory : UInt64 → UInt8
  mprotected : List UInt64

namespace Injection

/-- `*psym`. -/
def load (memory : UInt64 → UInt8) (psym : UInt64) : PointerBytes := fun i =>
  memory (psym + UInt64.ofNat i)

def store (memory : UInt64 → UInt8) (psym : UInt64) (func : PointerBytes) : UInt64 → UInt8 :=
  fun address =>
    if h : (address - psym).toNat < 8 then func ⟨(address - psym).toNat, h⟩ else memory address

/-- `mem_page`. -/
def memPage (pageSize psym : UInt64) : UInt64 := psym &&& ~~~ (pageSize - 1)

/-- What is done for a slot and a function that it should hold. -/
def redirect (pageSize : UInt64) (injection : Injection) (psym : UInt64) (func : PointerBytes) :
    Injection :=
  if load injection.memory psym ≠ func then
    ⟨store injection.memory psym func, injection.mprotected ++ [memPage pageSize psym]⟩
  else injection

/-- The body of the loop over the relocations; the search in `s_wrapped_functions` ends with the
first name that is equal. -/
def visitRelocation (image : ElfImage) (wrapped : List WrappedFunctionInfo) (pageSize base : UInt64)
    (tables : DynTables) (injection : Injection) (rel : ElfRela) : Injection :=
  match wrapped.find? fun info => info.name = tables.symName image rel with
  | some info => injection.redirect pageSize (rel.rOffset + base) info.func
  | none => injection

/-- The body of the loop over the program headers. -/
def visitPhdr (image : ElfImage) (wrapped : List WrappedFunctionInfo) (pageSize base : UInt64)
    (injection : Injection) (phdr : ElfPhdr) : Injection :=
  if phdr.pType ≠ ptDynamic then injection
  else
    let tables := DynTables.ofDynamic (image.dyn (phdr.pVaddr + base))
    (tables.relocations image).foldl (visitRelocation image wrapped pageSize base tables) injection

/-- `strstr` finds the string. -/
def strstr (s sub : CString) : Prop := sub.bytes <:+: s.bytes

instance (s sub : CString) : Decidable (strstr s sub) := inferInstanceAs (Decidable (_ <:+: _))

/-- The object is `libmemhook` itself or the dynamic linker. -/
def Excluded (excluded : List CString) (info : DlPhdrInfo) : Prop :=
  ∃ name ∈ info.dlpiName, ∃ sub ∈ excluded, strstr name sub

instance (excluded : List CString) (info : DlPhdrInfo) : Decidable (Excluded excluded info) :=
  match h : info.dlpiName with
  | none => isFalse (by simp [Excluded, h])
  | some name => decidable_of_iff (∃ sub ∈ excluded, strstr name sub) (by simp [Excluded, h])

/-- `dl_iterate_phdr_elfinjection`. -/
def dlIteratePhdrElfinjection (image : ElfImage) (wrapped : List WrappedFunctionInfo)
    (pageSize : UInt64) (excluded : List CString) (info : DlPhdrInfo) (injection : Injection) :
    Int32 × Injection :=
  if Excluded excluded info then (0, injection)
  else (0, info.dlpiPhdr.foldl (visitPhdr image wrapped pageSize info.dlpiAddr) injection)

/-- `dl_iterate_phdr`, which stops when the callback does not return zero. -/
def dlIteratePhdr {σ : Type*} (callback : DlPhdrInfo → σ → Int32 × σ) :
    List DlPhdrInfo → σ → Int32 × σ
  | [], state => (0, state)
  | info :: rest, state =>
      if (callback info state).1 = 0 then dlIteratePhdr callback rest (callback info state).2
      else callback info state

/-- `ElfInject`. -/
def elfInject (image : ElfImage) (wrapped : List WrappedFunctionInfo) (pageSize : UInt64)
    (excluded : List CString) (objects : List DlPhdrInfo) (injection : Injection) : Injection :=
  (dlIteratePhdr (dlIteratePhdrElfinjection image wrapped pageSize excluded) objects injection).2

/-! ## Loads and stores -/

section Memory

variable {memory : UInt64 → UInt8} {psym psym' address : UInt64} {func : PointerBytes}

/-- The eight bytes of a slot. -/
def InSlot (psym address : UInt64) : Prop := ∃ i : Fin 8, address = psym + UInt64.ofNat i

theorem toNat_slot_sub (psym : UInt64) (i : Fin 8) :
    (psym + UInt64.ofNat i - psym).toNat = i := by
  rw [UInt64.add_comm, UInt64.add_sub_cancel]
  exact UInt64.toNat_ofNat_of_lt' (i.isLt.trans (by decide))

theorem inSlot_iff : InSlot psym address ↔ (address - psym).toNat < 8 := by
  constructor
  · rintro ⟨i, rfl⟩
    rw [toNat_slot_sub]
    exact i.isLt
  · intro h
    refine ⟨⟨(address - psym).toNat, h⟩, ?_⟩
    rw [UInt64.ofNat_toNat, UInt64.add_comm, UInt64.sub_add_cancel]

theorem store_of_not_inSlot (h : ¬ InSlot psym address) :
    store memory psym func address = memory address := by
  unfold store
  rw [dif_neg fun hlt => h (inSlot_iff.mpr hlt)]

theorem load_store_self : load (store memory psym func) psym = func := by
  funext i
  unfold load store
  simp only [toNat_slot_sub, i.isLt, dif_pos]

/-- The slots have no byte in common. -/
def Disjoint (psym psym' : UInt64) : Prop := ∀ address, InSlot psym address → ¬ InSlot psym' address

theorem load_store_of_disjoint (h : Disjoint psym psym') :
    load (store memory psym' func) psym = load memory psym := by
  funext i
  exact store_of_not_inSlot (h _ ⟨i, rfl⟩)

/-- A page begins at a multiple of its size. -/
theorem toNat_memPage {k : ℕ} (hk : k < 64) (psym : UInt64) :
    (memPage (UInt64.ofNat (2 ^ k)) psym).toNat = psym.toNat / 2 ^ k * 2 ^ k := by
  have hpow : 2 ^ k < 2 ^ 64 := Nat.pow_lt_pow_right (by omega) hk
  have hpage : (UInt64.ofNat (2 ^ k)).toNat = 2 ^ k := UInt64.toNat_ofNat_of_lt' hpow
  have hone : (1 : UInt64) ≤ UInt64.ofNat (2 ^ k) := by
    rw [UInt64.le_iff_toNat_le, hpage]
    exact Nat.one_le_two_pow
  have hmask : (UInt64.ofNat (2 ^ k) - 1).toNat = 2 ^ k - 1 := by
    rw [UInt64.toNat_sub_of_le _ _ hone, hpage]
    rfl
  refine Nat.eq_of_testBit_eq fun j => ?_
  have hnot : (UInt64.size - 1 - (2 ^ k - 1)).testBit j =
      (decide (j < 64) && !decide (j < k)) := by
    have hsize : UInt64.size - 1 - (2 ^ k - 1) = 2 ^ 64 - (2 ^ k - 1 + 1) := by
      rw [Nat.add_comm, ← Nat.sub_sub]
      rfl
    rw [hsize, Nat.testBit_two_pow_sub_succ (by omega), Nat.testBit_two_pow_sub_one]
  unfold memPage
  rw [UInt64.toNat_and, UInt64.toNat_not, hmask, Nat.testBit_and, hnot, Nat.testBit_mul_two_pow,
    Nat.testBit_div_two_pow]
  by_cases hj : k ≤ j
  · by_cases hlarge : j < 64
    · simp [hj, hlarge, Nat.not_lt.mpr hj]
    · have hzero : psym.toNat.testBit j = false :=
        Nat.testBit_lt_two_pow (psym.toNat_lt.trans_le (Nat.pow_le_pow_right (by omega) (by omega)))
      simp [hj, hzero]
  · simp [hj, Nat.not_le.mp hj]

/-- The bytes of an aligned slot are in one page. -/
theorem memPage_slot {k : ℕ} (hk : k < 64) (hthree : 3 ≤ k) {psym : UInt64}
    (haligned : psym.toNat % 8 = 0) (i : Fin 8) :
    memPage (UInt64.ofNat (2 ^ k)) (psym + UInt64.ofNat i) =
      memPage (UInt64.ofNat (2 ^ k)) psym := by
  have hi : (UInt64.ofNat i).toNat = i := UInt64.toNat_ofNat_of_lt' (i.isLt.trans (by decide))
  have hlt := psym.toNat_lt
  have hsum : (psym + UInt64.ofNat i).toNat = psym.toNat + i := by
    rw [UInt64.toNat_add, hi]
    omega
  obtain ⟨m, rfl⟩ := Nat.exists_eq_add_of_le hthree
  refine UInt64.toNat_inj.mp ?_
  rw [toNat_memPage hk, toNat_memPage hk, hsum]
  have hdiv : ∀ n, n / 2 ^ (3 + m) = n / 8 / 2 ^ m := fun n => by
    rw [Nat.pow_add, ← Nat.div_div_eq_div_mul]
  have hsame : (psym.toNat + i) / 8 = psym.toNat / 8 := by omega
  rw [hdiv, hdiv, hsame]

end Memory

/-! ## All redirections of a run -/

section Redirects

variable (image : ElfImage) (wrapped : List WrappedFunctionInfo) (pageSize : UInt64)
  (excluded : List CString)

/-- A slot and the function that it is to hold. -/
abbrev Redirection := UInt64 × PointerBytes

def redirectionOf (base : UInt64) (tables : DynTables) (rel : ElfRela) : Option Redirection :=
  (wrapped.find? fun info => info.name = tables.symName image rel).map fun info =>
    (rel.rOffset + base, info.func)

def redirectionsOfPhdr (base : UInt64) (phdr : ElfPhdr) : List Redirection :=
  if phdr.pType ≠ ptDynamic then []
  else
    let tables := DynTables.ofDynamic (image.dyn (phdr.pVaddr + base))
    (tables.relocations image).filterMap (redirectionOf image wrapped base tables)

def redirectionsOfObject (info : DlPhdrInfo) : List Redirection :=
  if Excluded excluded info then []
  else info.dlpiPhdr.flatMap (redirectionsOfPhdr image wrapped info.dlpiAddr)

/-- What `ElfInject` looks at, in its order. -/
def redirections (objects : List DlPhdrInfo) : List Redirection :=
  objects.flatMap (redirectionsOfObject image wrapped excluded)

/-- The redirections are made one after the other. -/
def redirectAll (redirections : List Redirection) (injection : Injection) : Injection :=
  redirections.foldl (fun injection r => injection.redirect pageSize r.1 r.2) injection

theorem redirectAll_append (first second : List Redirection) (injection : Injection) :
    redirectAll pageSize (first ++ second) injection =
      redirectAll pageSize second (redirectAll pageSize first injection) :=
  List.foldl_append ..

/-- The slots of a relocation table. -/
theorem foldl_visitRelocation (base : UInt64) (tables : DynTables) (rels : List ElfRela)
    (injection : Injection) :
    rels.foldl (visitRelocation image wrapped pageSize base tables) injection =
      redirectAll pageSize (rels.filterMap (redirectionOf image wrapped base tables))
        injection := by
  induction rels generalizing injection with
  | nil => rfl
  | cons rel rest ih =>
      rw [List.foldl_cons, ih]
      cases hfind : wrapped.find? fun info => info.name = tables.symName image rel with
      | none => simp [visitRelocation, redirectionOf, hfind]
      | some info => simp [visitRelocation, redirectionOf, hfind, redirectAll]

theorem visitPhdr_eq (base : UInt64) (injection : Injection) (phdr : ElfPhdr) :
    visitPhdr image wrapped pageSize base injection phdr =
      redirectAll pageSize (redirectionsOfPhdr image wrapped base phdr) injection := by
  unfold visitPhdr redirectionsOfPhdr
  split
  · rfl
  · exact foldl_visitRelocation image wrapped pageSize base _ _ injection

theorem foldl_visitPhdr (base : UInt64) (phdrs : List ElfPhdr) (injection : Injection) :
    phdrs.foldl (visitPhdr image wrapped pageSize base) injection =
      redirectAll pageSize (phdrs.flatMap (redirectionsOfPhdr image wrapped base)) injection := by
  induction phdrs generalizing injection with
  | nil => rfl
  | cons phdr rest ih =>
      rw [List.foldl_cons, ih, visitPhdr_eq, List.flatMap_cons, redirectAll_append]

/-- The callback always returns zero, so no object is passed over. -/
theorem elfInject_eq (objects : List DlPhdrInfo) (injection : Injection) :
    elfInject image wrapped pageSize excluded objects injection =
      redirectAll pageSize (redirections image wrapped excluded objects) injection := by
  induction objects generalizing injection with
  | nil => rfl
  | cons info rest ih =>
      have hcallback : dlIteratePhdrElfinjection image wrapped pageSize excluded info injection =
          (0, redirectAll pageSize (redirectionsOfObject image wrapped excluded info)
            injection) := by
        unfold dlIteratePhdrElfinjection redirectionsOfObject
        split
        · rfl
        · rw [foldl_visitPhdr]
      have hrest := ih (redirectAll pageSize (redirectionsOfObject image wrapped excluded info)
        injection)
      unfold elfInject at hrest ⊢
      simp only [dlIteratePhdr, hcallback, if_true]
      rw [hrest, ← redirectAll_append]
      rfl

end Redirects

/-! ## What they leave behind -/

section Spec

variable {pageSize : UInt64} {injection : Injection} {rs : List Redirection} {r r' : Redirection}

/-- The two slots are bound to one function, or have no byte in common. -/
def Compatible (r r' : Redirection) : Prop := r = r' ∨ Disjoint r.1 r'.1

/-- The slot holds its function. -/
def Holds (injection : Injection) (r : Redirection) : Prop := load injection.memory r.1 = r.2

theorem holds_redirect_self : (injection.redirect pageSize r.1 r.2).Holds r := by
  unfold redirect
  split
  next => exact load_store_self
  next heq => exact not_not.mp heq

theorem load_redirect_of_disjoint (h : Disjoint r.1 r'.1) :
    load (injection.redirect pageSize r'.1 r'.2).memory r.1 = load injection.memory r.1 := by
  unfold redirect
  split
  · exact load_store_of_disjoint h
  · rfl

theorem Holds.redirect (hholds : injection.Holds r) (h : Compatible r r') :
    (injection.redirect pageSize r'.1 r'.2).Holds r := by
  rcases h with rfl | hdisjoint
  · exact holds_redirect_self
  · exact (load_redirect_of_disjoint hdisjoint).trans hholds

theorem Holds.redirectAll (hholds : injection.Holds r) (h : ∀ r' ∈ rs, Compatible r r') :
    (redirectAll pageSize rs injection).Holds r := by
  induction rs generalizing injection with
  | nil => exact hholds
  | cons first rest ih =>
      obtain ⟨hfirst, hrest⟩ := List.forall_mem_cons.mp h
      exact ih (hholds.redirect hfirst) hrest

/-- Every slot holds its function in the end. -/
theorem holds_redirectAll (h : ∀ r ∈ rs, ∀ r' ∈ rs, Compatible r r') :
    ∀ r ∈ rs, (redirectAll pageSize rs injection).Holds r := by
  induction rs generalizing injection with
  | nil => simp
  | cons first rest ih =>
      intro r hr
      rcases List.mem_cons.mp hr with rfl | hr
      · exact holds_redirect_self.redirectAll fun r' hr' =>
          h r (List.mem_cons_self ..) r' (List.mem_cons_of_mem _ hr')
      · refine ih (fun a ha b hb => ?_) r hr
        exact h a (List.mem_cons_of_mem _ ha) b (List.mem_cons_of_mem _ hb)

/-- Bytes outside of the slots stay as they are. -/
theorem memory_redirectAll {address : UInt64} (h : ∀ r ∈ rs, ¬ InSlot r.1 address) :
    (redirectAll pageSize rs injection).memory address = injection.memory address := by
  induction rs generalizing injection with
  | nil => rfl
  | cons first rest ih =>
      obtain ⟨hfirst, hrest⟩ := List.forall_mem_cons.mp h
      refine (ih hrest).trans ?_
      show (injection.redirect pageSize first.1 first.2).memory address = _
      unfold redirect
      split
      · exact store_of_not_inSlot hfirst
      · rfl

/-- Where all slots hold their functions, nothing is done. -/
theorem redirectAll_eq_self (h : ∀ r ∈ rs, injection.Holds r) :
    redirectAll pageSize rs injection = injection := by
  induction rs with
  | nil => rfl
  | cons first rest ih =>
      obtain ⟨hfirst, hrest⟩ := List.forall_mem_cons.mp h
      have hnothing : injection.redirect pageSize first.1 first.2 = injection :=
        if_neg (not_not.mpr hfirst)
      show redirectAll pageSize rest (injection.redirect pageSize first.1 first.2) = _
      rw [hnothing, ih hrest]

/-- A page is made writable for a slot that does not hold its function yet. -/
theorem mem_mprotected_redirectAll (h : ∀ r ∈ rs, ∀ r' ∈ rs, Compatible r r') (page : UInt64) :
    page ∈ (redirectAll pageSize rs injection).mprotected ↔ page ∈ injection.mprotected ∨
      ∃ r ∈ rs, page = memPage pageSize r.1 ∧ ¬ injection.Holds r := by
  induction rs generalizing injection with
  | nil => simp [redirectAll]
  | cons first rest ih =>
      have hrest : ∀ r ∈ rest, ∀ r' ∈ rest, Compatible r r' := fun a ha b hb =>
        h a (List.mem_cons_of_mem _ ha) b (List.mem_cons_of_mem _ hb)
      -- the first one decides about itself, and the others see what they saw before
      have hlater : ∀ r ∈ rest, r ≠ first →
          ((injection.redirect pageSize first.1 first.2).Holds r ↔ injection.Holds r) := by
        intro r hr hne
        have hdisjoint := (h r (List.mem_cons_of_mem _ hr) first
          (List.mem_cons_self ..)).resolve_left hne
        rw [Holds, load_redirect_of_disjoint hdisjoint]
        rfl
      have hstep : page ∈ (injection.redirect pageSize first.1 first.2).mprotected ↔
          page ∈ injection.mprotected ∨
            (page = memPage pageSize first.1 ∧ ¬ injection.Holds first) := by
        unfold redirect
        split
        next hne => simp [Holds, hne]
        next heq => simp [Holds, not_not.mp heq]
      show page ∈ (redirectAll pageSize rest
        (injection.redirect pageSize first.1 first.2)).mprotected ↔ _
      rw [ih hrest, hstep]
      constructor
      · rintro ((hbefore | hfirst) | ⟨r, hr, hpage, hnot⟩)
        · exact .inl hbefore
        · exact .inr ⟨first, List.mem_cons_self .., hfirst⟩
        · by_cases heq : r = first
          · exact absurd (heq ▸ holds_redirect_self) hnot
          · exact .inr ⟨r, List.mem_cons_of_mem _ hr, hpage,
              fun hholds => hnot ((hlater r hr heq).mpr hholds)⟩
      · rintro (hbefore | ⟨r, hr, hpage, hnot⟩)
        · exact .inl (.inl hbefore)
        · by_cases heq : r = first
          · exact .inl (.inr (heq ▸ ⟨hpage, hnot⟩))
          · have hr' := (List.mem_cons.mp hr).resolve_left heq
            exact .inr ⟨r, hr', hpage, fun hholds => hnot ((hlater r hr' heq).mp hholds)⟩

end Spec

/-! ## The table -/

theorem nodup_wrappedNames (haveCfree haveAlignedAlloc haveValloc havePvalloc : Bool) :
    ((wrappedNames haveCfree haveAlignedAlloc haveValloc havePvalloc).map
      CString.ofString).Nodup := by
  have hall : ((wrappedNames true true true true).map CString.ofString).Nodup := by decide +kernel
  refine hall.sublist (List.Sublist.map _ ?_)
  have hif : ∀ (b : Bool) (names : List String),
      (if b then names else []).Sublist names := by
    intro b names
    cases b
    · exact List.nil_sublist names
    · exact List.Sublist.refl names
  exact ((((List.Sublist.refl _).append (hif haveCfree _)).append (hif haveAlignedAlloc _)).append
    (hif haveValloc _)).append (hif havePvalloc _) |>.append (List.Sublist.refl _)

/-- The names of the wrapped functions and the addresses of their wrappers. -/
structure Wrappers where
  haveCfree : Bool
  haveAlignedAlloc : Bool
  haveValloc : Bool
  havePvalloc : Bool
  address : String → PointerBytes

namespace Wrappers

def names (wrappers : Wrappers) : List String :=
  wrappedNames wrappers.haveCfree wrappers.haveAlignedAlloc wrappers.haveValloc
    wrappers.havePvalloc

def table (wrappers : Wrappers) : List WrappedFunctionInfo :=
  sWrappedFunctions wrappers.haveCfree wrappers.haveAlignedAlloc wrappers.haveValloc
    wrappers.havePvalloc wrappers.address

/-- The search leads to the wrapper of the name: all names differ, so the first that is equal is
the only one. -/
theorem find?_table_iff (wrappers : Wrappers) (symName : CString) (entry : WrappedFunctionInfo) :
    (wrappers.table.find? fun info => info.name = symName) = some entry ↔
      ∃ name ∈ wrappers.names, .ofString name = symName ∧
        entry = ⟨.ofString name, wrappers.address name⟩ := by
  constructor
  · intro hfind
    obtain ⟨name, hname, rfl⟩ := List.mem_map.mp (List.mem_of_find?_eq_some hfind)
    exact ⟨name, hname, by simpa using List.find?_some hfind, rfl⟩
  · rintro ⟨name, hname, rfl, rfl⟩
    have hmem : (⟨.ofString name, wrappers.address name⟩ : WrappedFunctionInfo) ∈
        wrappers.table := List.mem_map.mpr ⟨name, hname, rfl⟩
    obtain ⟨found, hfound⟩ := Option.isSome_iff_exists.mp
      (List.find?_isSome (p := fun info => info.name = .ofString name).mpr ⟨_, hmem, by simp⟩)
    obtain ⟨other, hother, rfl⟩ := List.mem_map.mp (List.mem_of_find?_eq_some hfound)
    have hequal : CString.ofString other = .ofString name := by
      simpa using List.find?_some hfound
    have hsame : other = name :=
      List.inj_on_of_nodup_map (nodup_wrappedNames ..) hother hname hequal
    rw [hfound, hsame]

end Wrappers

/-! ## The slots of the procedure linkage table, by the format -/

/-- A dynamic section has an entry; the first `DT_NULL` ends the section. -/
def HasEntry (dyn : List ElfDyn) (tag : Int64) (value : UInt64) : Prop :=
  ∃ before after, dyn = before ++ ⟨tag, value⟩ :: after ∧ ∀ d ∈ before, d.dTag ≠ dtNull

/-- The procedure linkage table of a dynamic section has a slot at this offset for the symbol of
this name: `DT_JMPREL` and `DT_PLTRELSZ` give the relocations, `DT_SYMTAB` and `DT_STRTAB` the
symbol that one of them is about. -/
def PltSlot (image : ElfImage) (dyn : List ElfDyn) (offset : UInt64) (name : CString) : Prop :=
  ∃ jmprel pltrelsz symtab strtab : UInt64, HasEntry dyn dtJmprel jmprel ∧
    HasEntry dyn dtPltrelsz pltrelsz ∧ HasEntry dyn dtSymtab symtab ∧
    HasEntry dyn dtStrtab strtab ∧
    ∃ i : ℕ, 24 * (i + 1) ≤ pltrelsz.toNat ∧
      let rel := image.rela (jmprel + sizeofElfRela * UInt64.ofNat i)
      let stName := image.stName (symtab + sizeofElfSym * (rel.rInfo >>> 32))
      rel.rOffset = offset ∧ image.str (strtab + stName.toUInt64) = name

/-- What the format promises about a dynamic section.  Each of the four entries is there at most
once, a relocation table comes with the other two, is in the address space, and is made of whole
relocations. -/
structure WellFormed (dyn : List ElfDyn) : Prop where
  unique : ∀ tag ∈ [dtJmprel, dtPltrelsz, dtSymtab, dtStrtab], ∀ value value',
    HasEntry dyn tag value → HasEntry dyn tag value' → value = value'
  tables : ∀ pltrelsz, HasEntry dyn dtPltrelsz pltrelsz →
    ∃ jmprel symtab strtab, HasEntry dyn dtJmprel jmprel ∧ HasEntry dyn dtSymtab symtab ∧
      HasEntry dyn dtStrtab strtab ∧ jmprel.toNat + pltrelsz.toNat < 2 ^ 64
  whole : ∀ pltrelsz, HasEntry dyn dtPltrelsz pltrelsz → pltrelsz.toNat % 24 = 0

theorem ne_dtNull_of_mem {tag : Int64} (h : tag ∈ [dtJmprel, dtPltrelsz, dtSymtab, dtStrtab]) :
    tag ≠ dtNull := by
  rintro rfl
  revert h
  decide

theorem hasEntry_iff {dyn : List ElfDyn} {tag : Int64} {value : UInt64} (htag : tag ≠ dtNull) :
    HasEntry dyn tag value ↔ ⟨tag, value⟩ ∈ dyn.takeWhile fun d => d.dTag ≠ dtNull := by
  constructor
  · rintro ⟨before, after, rfl, hbefore⟩
    rw [List.takeWhile_append_of_pos (by simpa using hbefore)]
    simp [htag]
  · intro hmem
    obtain ⟨before, after, hsplit⟩ := List.append_of_mem hmem
    refine ⟨before, after ++ dyn.dropWhile fun d => d.dTag ≠ dtNull, ?_, ?_⟩
    · rw [← List.cons_append, ← List.append_assoc, ← hsplit, List.takeWhile_append_dropWhile]
    · intro d hd
      have hd' : d ∈ dyn.takeWhile fun d => d.dTag ≠ dtNull := by
        rw [hsplit]
        exact List.mem_append_left _ hd
      simpa using List.mem_takeWhile_imp hd'

/-- What a field of the tables holds after entries that agree on it. -/
theorem field_foldl_read {field : DynTables → UInt64} {tag : Int64} {value : UInt64}
    (hread : ∀ tables d, field (tables.read d) = if d.dTag = tag then d.dUn else field tables)
    {dyn : List ElfDyn} (hagree : ∀ d ∈ dyn, d.dTag = tag → d.dUn = value) {tables : DynTables}
    (h : field tables = value ∨ ⟨tag, value⟩ ∈ dyn) :
    field (dyn.foldl DynTables.read tables) = value := by
  induction dyn generalizing tables with
  | nil => simpa using h
  | cons d rest ih =>
      obtain ⟨hd, hrest⟩ := List.forall_mem_cons.mp hagree
      refine ih hrest ?_
      rw [hread]
      split
      next htag => exact .inl (hd htag)
      next htag =>
        rcases h with h | h
        · exact .inl h
        · rcases List.mem_cons.mp h with rfl | h
          · exact absurd rfl htag
          · exact .inr h

theorem read_strTable (tables : DynTables) (d : ElfDyn) :
    (tables.read d).strTable = if d.dTag = dtStrtab then d.dUn else tables.strTable := by
  unfold DynTables.read
  split_ifs <;> rfl

theorem read_relTable (tables : DynTables) (d : ElfDyn) :
    (tables.read d).relTable = if d.dTag = dtJmprel then d.dUn else tables.relTable := by
  unfold DynTables.read
  split_ifs with hstr hrel <;> simp_all [dtStrtab, dtJmprel]

theorem read_symTable (tables : DynTables) (d : ElfDyn) :
    (tables.read d).symTable = if d.dTag = dtSymtab then d.dUn else tables.symTable := by
  unfold DynTables.read
  split_ifs with hstr hrel hsym <;> simp_all [dtStrtab, dtJmprel, dtSymtab]

theorem read_relTableSize (tables : DynTables) (d : ElfDyn) :
    (tables.read d).relTableSize = if d.dTag = dtPltrelsz then d.dUn else tables.relTableSize := by
  unfold DynTables.read
  split_ifs with hstr hrel hsym hsize <;>
    simp_all [dtStrtab, dtJmprel, dtSymtab, dtPltrelsz]

section Format

variable {image : ElfImage} {dyn : List ElfDyn} {offset : UInt64} {name : CString}

theorem WellFormed.field_ofDynamic (h : WellFormed dyn) {field : DynTables → UInt64}
    {tag : Int64} {value : UInt64}
    (hread : ∀ tables d, field (tables.read d) = if d.dTag = tag then d.dUn else field tables)
    (htag : tag ∈ [dtJmprel, dtPltrelsz, dtSymtab, dtStrtab]) (hentry : HasEntry dyn tag value) :
    field (DynTables.ofDynamic dyn) = value := by
  have hnull := ne_dtNull_of_mem htag
  refine field_foldl_read hread ?_ (.inr ((hasEntry_iff hnull).mp hentry))
  rintro d hd rfl
  exact h.unique d.dTag htag _ _ ((hasEntry_iff hnull).mpr hd) hentry

/-- `ELF64_R_SYM` has 32 bits, so the variable it is put in holds it. -/
theorem toUInt32_shiftRight (rInfo : UInt64) : (rInfo >>> 32).toUInt32.toUInt64 = rInfo >>> 32 := by
  refine UInt64.toNat_inj.mp ?_
  have hshift : (rInfo >>> 32).toNat = rInfo.toNat / 2 ^ 32 := by
    rw [UInt64.toNat_shiftRight, Nat.shiftRight_eq_div_pow]
    rfl
  have hlt := rInfo.toNat_lt
  rw [UInt32.toNat_toUInt64, UInt64.toNat_toUInt32, hshift]
  omega

/-- The loop visits a table of whole relocations. -/
theorem relCount_eq (tables : DynTables)
    (hspace : tables.relTable.toNat + tables.relTableSize.toNat < 2 ^ 64)
    (hwhole : tables.relTableSize.toNat % 24 = 0) :
    tables.relCount = tables.relTableSize.toNat / 24 := by
  have hend : (tables.relTable + tables.relTableSize).toNat =
      tables.relTable.toNat + tables.relTableSize.toNat := by
    rw [UInt64.toNat_add, Nat.mod_eq_of_lt hspace]
  have hsize : sizeofElfRela.toNat = 24 := rfl
  rw [DynTables.relCount, hend, hsize]
  omega

/-- **The loops over a dynamic section find its slots.** -/
theorem pltSlot_iff (h : WellFormed dyn) :
    PltSlot image dyn offset name ↔
      ∃ rel ∈ (DynTables.ofDynamic dyn).relocations image, rel.rOffset = offset ∧
        (DynTables.ofDynamic dyn).symName image rel = name := by
  constructor
  · rintro ⟨jmprel, pltrelsz, symtab, strtab, hjmprel, hpltrelsz, hsymtab, hstrtab, i, hi, hrel⟩
    obtain ⟨jmprel', -, -, hjmprel', -, -, hspace⟩ := h.tables pltrelsz hpltrelsz
    have hrelTable := h.field_ofDynamic read_relTable (by simp) hjmprel
    have hrelTableSize := h.field_ofDynamic read_relTableSize (by simp) hpltrelsz
    have hcount := relCount_eq (DynTables.ofDynamic dyn)
      (by rwa [hrelTable, hrelTableSize, h.unique dtJmprel (by simp) _ _ hjmprel hjmprel'])
      (by rw [hrelTableSize]; exact h.whole pltrelsz hpltrelsz)
    refine ⟨image.rela (jmprel + sizeofElfRela * UInt64.ofNat i),
      List.mem_map.mpr ⟨i, ?_, ?_⟩, hrel.1, ?_⟩
    · rw [List.mem_range, hcount, hrelTableSize]
      omega
    · rw [hrelTable]
    · rw [DynTables.symName, toUInt32_shiftRight,
        h.field_ofDynamic read_symTable (by simp) hsymtab,
        h.field_ofDynamic read_strTable (by simp) hstrtab]
      exact hrel.2
  · rintro ⟨rel, hrel, hoffset, hname⟩
    obtain ⟨i, hi, rfl⟩ := List.mem_map.mp hrel
    rw [List.mem_range] at hi
    -- the loop goes round, so there is a size
    obtain ⟨pltrelsz, hpltrelsz⟩ : ∃ pltrelsz, HasEntry dyn dtPltrelsz pltrelsz := by
      by_contra hnone
      push Not at hnone
      have hsize : (DynTables.ofDynamic dyn).relTableSize = 0 :=
        field_foldl_read read_relTableSize
          (fun d hd htag => absurd ((hasEntry_iff (by decide)).mpr (htag ▸ hd)) (hnone d.dUn))
          (.inl rfl)
      have hnothing : (DynTables.ofDynamic dyn).relCount = 0 := by
        rw [DynTables.relCount, hsize, UInt64.add_zero, Nat.sub_self]
        rfl
      omega
    obtain ⟨jmprel, symtab, strtab, hjmprel, hsymtab, hstrtab, hspace⟩ :=
      h.tables pltrelsz hpltrelsz
    have hrelTable := h.field_ofDynamic read_relTable (by simp) hjmprel
    have hrelTableSize := h.field_ofDynamic read_relTableSize (by simp) hpltrelsz
    have hcount := relCount_eq (DynTables.ofDynamic dyn)
      (by rwa [hrelTable, hrelTableSize])
      (by rw [hrelTableSize]; exact h.whole pltrelsz hpltrelsz)
    rw [hcount, hrelTableSize] at hi
    refine ⟨jmprel, pltrelsz, symtab, strtab, hjmprel, hpltrelsz, hsymtab, hstrtab, i, by omega,
      ?_, ?_⟩
    · rw [← hoffset, hrelTable]
    · rw [← hname, DynTables.symName, toUInt32_shiftRight,
        h.field_ofDynamic read_symTable (by simp) hsymtab,
        h.field_ofDynamic read_strTable (by simp) hstrtab, hrelTable]

end Format

/-! ## The imports of a process -/

section Process

variable (image : ElfImage) (wrappers : Wrappers) (excluded : List CString)

/-- An object that is not excluded has this slot in its procedure linkage table, for a wrapped
function whose wrapper is at this address. -/
def Imports (objects : List DlPhdrInfo) (psym : UInt64) (func : PointerBytes) : Prop :=
  ∃ info ∈ objects, ¬ Excluded excluded info ∧
    ∃ phdr ∈ info.dlpiPhdr, phdr.pType = ptDynamic ∧
      ∃ offset, ∃ name ∈ wrappers.names,
        PltSlot image (image.dyn (phdr.pVaddr + info.dlpiAddr)) offset (.ofString name) ∧
          offset + info.dlpiAddr = psym ∧ wrappers.address name = func

/-- The dynamic sections of the objects are as the format says. -/
def AllWellFormed (objects : List DlPhdrInfo) : Prop :=
  ∀ info ∈ objects, ∀ phdr ∈ info.dlpiPhdr, phdr.pType = ptDynamic →
    WellFormed (image.dyn (phdr.pVaddr + info.dlpiAddr))

variable {image wrappers excluded}

theorem mem_redirectionsOfPhdr_iff {base psym : UInt64} {func : PointerBytes} {phdr : ElfPhdr}
    (htype : phdr.pType = ptDynamic) (hformed : WellFormed (image.dyn (phdr.pVaddr + base))) :
    (psym, func) ∈ redirectionsOfPhdr image wrappers.table base phdr ↔
      ∃ offset, ∃ name ∈ wrappers.names,
        PltSlot image (image.dyn (phdr.pVaddr + base)) offset (.ofString name) ∧
          offset + base = psym ∧ wrappers.address name = func := by
  simp only [redirectionsOfPhdr, htype, ne_eq, not_true_eq_false, if_false, List.mem_filterMap,
    redirectionOf, Option.map_eq_some_iff, Prod.mk.injEq, Wrappers.find?_table_iff,
    pltSlot_iff hformed]
  constructor
  · rintro ⟨rel, hrel, entry, ⟨name, hname, hsym, rfl⟩, hslot, hfunc⟩
    exact ⟨rel.rOffset, name, hname, ⟨rel, hrel, rfl, hsym.symm⟩, hslot, hfunc⟩
  · rintro ⟨offset, name, hname, ⟨rel, hrel, rfl, hsym⟩, hslot, hfunc⟩
    exact ⟨rel, hrel, _, ⟨name, hname, hsym.symm, rfl⟩, hslot, hfunc⟩

/-- **What `ElfInject` looks at are the imports.** -/
theorem mem_redirections_iff {objects : List DlPhdrInfo} (hformed : AllWellFormed image objects)
    (psym : UInt64) (func : PointerBytes) :
    (psym, func) ∈ redirections image wrappers.table excluded objects ↔
      Imports image wrappers excluded objects psym func := by
  simp only [redirections, redirectionsOfObject, List.mem_flatMap, Imports]
  refine exists_congr fun info => and_congr_right fun hinfo => ?_
  by_cases hexcluded : Excluded excluded info
  · simp [hexcluded]
  · simp only [hexcluded, if_false, not_false_eq_true, true_and, List.mem_flatMap]
    refine exists_congr fun phdr => and_congr_right fun hphdr => ?_
    by_cases htype : phdr.pType = ptDynamic
    · rw [mem_redirectionsOfPhdr_iff htype (hformed info hinfo phdr hphdr htype)]
      exact (and_iff_right htype).symm
    · simp [redirectionsOfPhdr, htype]

variable (image wrappers excluded)

/-- No slot is imported through for two functions, and no two slots overlap. -/
def WellLinked (objects : List DlPhdrInfo) : Prop :=
  ∀ psym func psym' func', Imports image wrappers excluded objects psym func →
    Imports image wrappers excluded objects psym' func' →
    psym = psym' ∧ func = func' ∨ Disjoint psym psym'

variable {image wrappers excluded}

theorem WellLinked.compatible {objects : List DlPhdrInfo}
    (h : WellLinked image wrappers excluded objects) (hformed : AllWellFormed image objects) :
    ∀ r ∈ redirections image wrappers.table excluded objects,
      ∀ r' ∈ redirections image wrappers.table excluded objects, Compatible r r' := by
  intro r hr r' hr'
  rcases h _ _ _ _ ((mem_redirections_iff hformed ..).mp hr)
    ((mem_redirections_iff hformed ..).mp hr') with ⟨hslot, hfunc⟩ | hdisjoint
  · exact .inl (Prod.ext hslot hfunc)
  · exact .inr hdisjoint

/-- **`ElfInject` redirects the imports of all objects and touches nothing else.**  Afterwards
every slot of a procedure linkage table through which an object, other than `libmemhook` and the
dynamic linker, imports a wrapped function holds the wrapper, and all other bytes are as before.
Exactly the pages of the slots that did not hold their wrappers were made writable, and what was
written to lies in them.  To run it again, with objects that were loaded since, does what a run
on these alone does: for the objects of the first run no page is made writable and no byte is
stored. -/
theorem elfInject_redirects (k : ℕ) (hk : k < 64) (hthree : 3 ≤ k) (objects : List DlPhdrInfo)
    (hformed : AllWellFormed image objects)
    (hlinked : WellLinked image wrappers excluded objects)
    (haligned : ∀ psym func, Imports image wrappers excluded objects psym func →
      psym.toNat % 8 = 0) (memory : UInt64 → UInt8) :
    let pageSize := UInt64.ofNat (2 ^ k)
    let after := elfInject image wrappers.table pageSize excluded objects ⟨memory, []⟩
    (∀ psym func, Imports image wrappers excluded objects psym func →
        load after.memory psym = func) ∧
      (∀ address, (∀ psym func, Imports image wrappers excluded objects psym func →
        ¬ InSlot psym address) → after.memory address = memory address) ∧
      (∀ page, page ∈ after.mprotected ↔
        ∃ psym func, Imports image wrappers excluded objects psym func ∧
          page = memPage pageSize psym ∧ load memory psym ≠ func) ∧
      (∀ address, after.memory address ≠ memory address →
        memPage pageSize address ∈ after.mprotected) ∧
      ∀ later, elfInject image wrappers.table pageSize excluded (objects ++ later) after =
        elfInject image wrappers.table pageSize excluded later after := by
  intro pageSize after
  have hafter : after = redirectAll pageSize (redirections image wrappers.table excluded objects)
      ⟨memory, []⟩ := elfInject_eq image wrappers.table pageSize excluded objects ⟨memory, []⟩
  have hcompatible := hlinked.compatible hformed
  have hholds : ∀ r ∈ redirections image wrappers.table excluded objects, after.Holds r := by
    rw [hafter]
    exact holds_redirectAll hcompatible
  have hpages : ∀ page, page ∈ after.mprotected ↔
      ∃ psym func, Imports image wrappers excluded objects psym func ∧
        page = memPage pageSize psym ∧ load memory psym ≠ func := by
    intro page
    rw [hafter, mem_mprotected_redirectAll hcompatible]
    constructor
    · rintro (hmem | ⟨r, hr, hpage, hnot⟩)
      · simp at hmem
      · exact ⟨r.1, r.2, (mem_redirections_iff hformed ..).mp hr, hpage, hnot⟩
    · rintro ⟨psym, func, himports, hpage, hnot⟩
      exact .inr ⟨(psym, func), (mem_redirections_iff hformed ..).mpr himports, hpage, hnot⟩
  have houtside : ∀ address, (∀ psym func, Imports image wrappers excluded objects psym func →
      ¬ InSlot psym address) → after.memory address = memory address := by
    intro address hnone
    rw [hafter]
    exact memory_redirectAll fun r hr => hnone r.1 r.2 ((mem_redirections_iff hformed ..).mp hr)
  refine ⟨fun psym func himports => hholds _ ((mem_redirections_iff hformed ..).mpr himports),
    houtside, hpages, ?_, ?_⟩
  · intro address hchanged
    -- a byte that changed is in a slot that did not hold its wrapper
    obtain ⟨psym, func, himports, hslot⟩ : ∃ psym func,
        Imports image wrappers excluded objects psym func ∧ InSlot psym address := by
      by_contra hnone
      refine hchanged (houtside address fun psym func himports hslot => ?_)
      exact hnone ⟨psym, func, himports, hslot⟩
    have hload : load after.memory psym = func :=
      hholds _ ((mem_redirections_iff hformed ..).mpr himports)
    obtain ⟨i, rfl⟩ := hslot
    rw [memPage_slot hk hthree (haligned psym func himports) i, hpages]
    refine ⟨psym, func, himports, rfl, fun hbefore => hchanged ?_⟩
    exact congrFun (hload.trans hbefore.symm) i
  · intro later
    rw [elfInject_eq, elfInject_eq, redirections, List.flatMap_append, redirectAll_append]
    exact congrArg _ (redirectAll_eq_self hholds)

/-- An executable that imports `free` and `puts`. -/
def sampleImage : ElfImage where
  dyn _ := [⟨dtStrtab, 256⟩, ⟨dtSymtab, 512⟩, ⟨dtJmprel, 768⟩, ⟨dtPltrelsz, 48⟩, ⟨dtNull, 0⟩]
  rela address := if address = 768 then ⟨4096, 0⟩ else ⟨4104, 4294967296⟩
  stName address := if address = 512 then 0 else 5
  str address := if address = 256 then .ofString "free" else .ofString "puts"

def sampleObjects : List DlPhdrInfo := [⟨65536, none, [⟨1, 0⟩, ⟨ptDynamic, 3072⟩]⟩]

theorem hasEntry_sampleImage_iff {address : UInt64} {tag : Int64} {value : UInt64}
    (htag : tag ≠ dtNull) : HasEntry (sampleImage.dyn address) tag value ↔
      (tag = dtStrtab ∧ value = 256) ∨ (tag = dtSymtab ∧ value = 512) ∨
        (tag = dtJmprel ∧ value = 768) ∨ (tag = dtPltrelsz ∧ value = 48) := by
  rw [hasEntry_iff htag]
  simp [sampleImage, dtStrtab, dtSymtab, dtJmprel, dtPltrelsz, dtNull]

theorem allWellFormed_sampleObjects : AllWellFormed sampleImage sampleObjects := by
  intro info _ phdr _ _
  have hsize : ∀ {pltrelsz}, HasEntry (sampleImage.dyn (phdr.pVaddr + info.dlpiAddr)) dtPltrelsz
      pltrelsz → pltrelsz = 48 := by
    intro pltrelsz h
    simpa [dtStrtab, dtSymtab, dtJmprel, dtPltrelsz] using
      (hasEntry_sampleImage_iff (by decide)).mp h
  refine ⟨?_, ?_, ?_⟩
  · intro tag htag value value' h h'
    rw [hasEntry_sampleImage_iff (ne_dtNull_of_mem htag)] at h h'
    simp only [dtStrtab, dtSymtab, dtJmprel, dtPltrelsz] at h h'
    grind
  · intro pltrelsz h
    refine ⟨768, 512, 256, ?_, ?_, ?_, ?_⟩
    · exact (hasEntry_sampleImage_iff (by decide)).mpr (by decide)
    · exact (hasEntry_sampleImage_iff (by decide)).mpr (by decide)
    · exact (hasEntry_sampleImage_iff (by decide)).mpr (by decide)
    · rw [hsize h]
      decide
  · intro pltrelsz h
    rw [hsize h]
    decide

theorem elfInject_redirects_sampleImage :
    let wrappers : Wrappers := ⟨false, true, true, true, fun _ => fun _ => 7⟩
    let after := elfInject sampleImage wrappers.table 4096 [.ofString "libmemhook.so"] sampleObjects
      ⟨fun _ => 0, []⟩
    load after.memory 69632 = (fun _ => 7) ∧ after.memory 69640 = 0 ∧
      after.mprotected = [69632] ∧
      elfInject sampleImage wrappers.table 4096 [.ofString "libmemhook.so"] sampleObjects after =
        after := by
  intro wrappers after
  have hall : redirections sampleImage wrappers.table [.ofString "libmemhook.so"] sampleObjects =
      [(69632, fun _ => 7)] := by decide +kernel
  have himports : ∀ psym func, Imports sampleImage wrappers [.ofString "libmemhook.so"]
      sampleObjects psym func ↔ psym = 69632 ∧ func = fun _ => 7 := by
    intro psym func
    rw [← mem_redirections_iff allWellFormed_sampleObjects, hall, List.mem_singleton, Prod.mk.injEq]
  have hlinked : WellLinked sampleImage wrappers [.ofString "libmemhook.so"] sampleObjects := by
    intro psym func psym' func' h h'
    obtain ⟨rfl, rfl⟩ := (himports psym func).mp h
    obtain ⟨rfl, rfl⟩ := (himports psym' func').mp h'
    exact .inl ⟨rfl, rfl⟩
  have haligned : ∀ psym func, Imports sampleImage wrappers [.ofString "libmemhook.so"]
      sampleObjects psym func → psym.toNat % 8 = 0 := by
    intro psym func h
    rw [((himports psym func).mp h).1]
    rfl
  obtain ⟨hslots, houtside, hpages, -, hagain⟩ := elfInject_redirects 12 (by decide) (by decide)
    sampleObjects allWellFormed_sampleObjects hlinked haligned fun _ => 0
  refine ⟨hslots _ _ ((himports _ _).mpr ⟨rfl, rfl⟩), ?_, ?_, ?_⟩
  · refine houtside 69640 fun psym func h => ?_
    rw [((himports psym func).mp h).1, inSlot_iff]
    decide
  · show (elfInject sampleImage wrappers.table 4096 _ sampleObjects ⟨fun _ => 0, []⟩).mprotected = _
    rw [elfInject_eq, hall]
    decide +kernel
  · exact (congrArg (fun objects => elfInject sampleImage wrappers.table 4096
      [.ofString "libmemhook.so"] objects after) (List.append_nil sampleObjects).symm).trans
      (hagain [])

end Process

end Injection

end Memhook
