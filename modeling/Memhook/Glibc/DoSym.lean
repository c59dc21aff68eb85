import Mathlib.Data.Fintype.Card
import Memhook.Glibc.LinearSearch

/-!
# The next function of a name

`GLIBC_do_sym` of `src/memhook/glibc.cpp` finds the function of a name that comes after the
object that asks, as `dlsym` does for `RTLD_NEXT`.  `GLIBC_find_dl_symbol` asks for the object
that calls it, so `libmemhook` finds the `dlsym` below its own.

The scope to search is the one of the object that loaded the object that loaded the caller, and
so on.  A chain of loaders that ends visits no map twice, so it is followed for as many steps as
there are maps; a chain that has not ended then comes back to a map, and the loop of the source
does not end.
-/

namespace Memhook

open Search

/-- What `GLIBC_do_sym` reads of the dynamic linker. -/
structure LinkedProcess (p : ElfPlatform) (M : Type*) where
  maps : M → LinkMap p M
  lLoader : M → Option M
  lAddr : M → BitVec p.native.bits
  /-- `l_local_scope`, up to its `NULL`. -/
  lLocalScope : M → List (List M)
  /-- `_dl_find_dso_for_object`, a weak symbol. -/
  findDsoForObject : Option (BitVec p.native.bits → Option M)

variable {p : ElfPlatform} {M : Type*} [DecidableEq M]

/-- `while (l->l_loader != NULL) l = l->l_loader`. -/
def lastLoader (lLoader : M → Option M) : ℕ → M → Option M
  | 0, _ => none
  | fuel + 1, l =>
      match lLoader l with
      | none => some l
      | some loader => lastLoader lLoader fuel loader

namespace LinkedProcess

/-- `GLIBC_dl_find_dso_for_object`. -/
def dlFindDsoForObject (process : LinkedProcess p M) (addr : BitVec p.native.bits) : Option M :=
  process.findDsoForObject.bind fun find => find addr

/-- `GLIBC_do_sym`: the pointer that is returned, and the maps afterwards. -/
def doSym [Fintype M] (process : LinkedProcess p M) (name : CString)
    (who : BitVec p.native.bits) : Option (BitVec p.native.bits × (M → LinkMap p M)) :=
  match process.dlFindDsoForObject who with
  | none => some (0#_, process.maps)
  | some caller =>
      (lastLoader process.lLoader (Fintype.card M) caller).bind fun l =>
        (dlLookupSymbol process.maps name none (process.lLocalScope l) (some caller)).bind fun
          | ⟨_, none, maps⟩ => some (0#_, maps)
          | ⟨map, some ref, maps⟩ =>
              (process.maps ref.map).symtab[ref.symidx]?.map fun entry =>
                ((map.map process.lAddr).getD 0#_ + entry.stValue, maps)

end LinkedProcess

/-! ## The chain of loaders -/

omit [DecidableEq M] in
theorem lastLoader_eq {lLoader : M → Option M} {l : M} {path : List M} {fuel : ℕ}
    (hpath : Path (fun l => some (lLoader l)) l path) (hfuel : path.length ≤ fuel) :
    lastLoader lLoader fuel l = path.getLast? := by
  induction hpath generalizing fuel with
  | @last l hnext =>
      obtain ⟨fuel, rfl⟩ : ∃ n, fuel = n + 1 := Nat.exists_eq_add_one.mpr hfuel
      have hnone : lLoader l = none := Option.some_injective _ hnext
      simp [lastLoader, hnone]
  | @step l loader path hnext hrest ih =>
      obtain ⟨fuel, rfl⟩ : ∃ n, fuel = n + 1 :=
        Nat.exists_eq_add_one.mpr (Nat.lt_of_lt_of_le (Nat.succ_pos _) hfuel)
      have hsome : lLoader l = some loader := Option.some_injective _ hnext
      have hne : path ≠ [] := by
        rintro rfl
        cases hrest
      rw [List.length_cons] at hfuel
      simp only [lastLoader, hsome]
      rw [ih (by omega), List.getLast?_cons_of_ne_nil hne]

omit [DecidableEq M] in
/-- There are as many steps as a chain that ends can need. -/
theorem lastLoader_card [Fintype M] {lLoader : M → Option M} {l : M} {path : List M}
    (hpath : Path (fun l => some (lLoader l)) l path) :
    lastLoader lLoader (Fintype.card M) l = path.getLast? :=
  lastLoader_eq hpath hpath.nodup.length_le_card

/-! ## What is found -/

section Found

variable {maps : M → LinkMap p M} {symbias : M → ℕ} {name : CString} {scopes : List (List M)}
  {skipMap : Option M} {sym : SymRef M}

/-- What a search finds is a function of the name in an object that is searched. -/
theorem of_linearSearch_eq_some (h : linearSearch maps symbias name scopes skipMap = some sym) :
    Searched maps skipMap sym.map ∧ ∃ entry, (maps sym.map).symtab[sym.symidx]? = some entry ∧
      entry.stType = sttFunc ∧ entry.stValue ≠ 0#_ ∧ (maps sym.map).symName entry = name ∧
      (entry.stBind = stbWeak ∨ entry.stBind = stbGlobal) := by
  obtain ⟨id, -, hfound⟩ := List.exists_of_findSome?_eq_some h
  unfold searchMap at hfound
  split at hfound
  next hsearched =>
    obtain ⟨i, hi, rfl⟩ := Option.map_eq_some_iff.mp hfound
    have haccepts : (maps (maps id).lReal).accepts name i = true := by
      simpa using List.find?_some hi
    obtain ⟨hdefines, hexports⟩ := Bool.and_eq_true_iff.mp haccepts
    refine ⟨hsearched, ?_⟩
    obtain ⟨entry, hentry, hdefined⟩ := (Option.any_eq_true _ _).mp hdefines
    obtain ⟨htype, hvalue, hname⟩ := of_decide_eq_true hdefined
    rw [LinkMap.exports, hentry, Option.any_some] at hexports
    exact ⟨entry, hentry, htype, hvalue, hname, of_decide_eq_true hexports⟩
  next => simp at hfound

end Found

namespace LinkedProcess

variable [Fintype M]

/-- The function of the name after the caller, or `NULL`. -/
def nextFunction (process : LinkedProcess p M) (symbias : M → ℕ) (name : CString)
    (caller l : M) : BitVec p.native.bits :=
  match linearSearch process.maps symbias name (process.lLocalScope l) (some caller) with
  | none => 0#_
  | some sym => process.lAddr sym.map +
      (((process.maps sym.map).symtab[sym.symidx]?).map ElfSym.stValue).getD 0#_

/-- The object `caller` may ask, and `l` is the last of its loaders: the chain of the loaders
ends, and the tables in the scope of its end can be searched. -/
structure MayAsk (process : LinkedProcess p M) (symbias : M → ℕ) (who : BitVec p.native.bits)
    (caller l : M) : Prop where
  found : process.dlFindDsoForObject who = some caller
  loaders : ∃ path, Path (fun l => some (process.lLoader l)) caller path ∧ path.getLast? = some l
  tables : ∀ id ∈ (process.lLocalScope l).flatten,
    Searchable (process.maps (process.maps id).lReal) (symbias (process.maps id).lReal)
  /-- The caller is in the scope that is searched after it. -/
  listed : ∃ first ∈ (process.lLocalScope l).head?, caller ∈ first
  nonempty : ∀ scope ∈ process.lLocalScope l, scope ≠ []

variable {process : LinkedProcess p M} {symbias : M → ℕ} {who : BitVec p.native.bits}
  {caller l : M}

theorem MayAsk.doSym_eq (h : process.MayAsk symbias who caller l) (name : CString) :
    process.doSym name who = some (process.nextFunction symbias name caller l,
      (LookupReply.of process.maps (linearSearch process.maps symbias name (process.lLocalScope l)
        (some caller))).maps) := by
  obtain ⟨path, hpath, hlast⟩ := h.loaders
  have hloader : lastLoader process.lLoader (Fintype.card M) caller = some l :=
    (lastLoader_card hpath).trans hlast
  have hlookup : dlLookupSymbol process.maps name none (process.lLocalScope l) (some caller) =
      some (.of process.maps (linearSearch process.maps symbias name (process.lLocalScope l)
        (some caller))) := by
    refine dlLookupSymbol_eq h.tables ?_ h.nonempty (by simp [RefNamed])
    intro skip hskip
    rw [← Option.some_injective _ hskip]
    exact h.listed
  simp only [doSym, h.found, hloader, Option.bind_some, hlookup, nextFunction]
  cases hsearch : linearSearch process.maps symbias name (process.lLocalScope l)
      (some caller) with
  | none => rfl
  | some sym =>
      obtain ⟨-, entry, hentry, -⟩ := of_linearSearch_eq_some hsearch
      simp [LookupReply.of, hentry]

/-! ### Asking again -/

/-- The maps are the same but for `l_used`. -/
def SameTables (maps maps' : M → LinkMap p M) : Prop :=
  ∀ map, ∃ lUsed, maps' map = { maps map with lUsed }

omit [Fintype M] [DecidableEq M] in
theorem sameTables_refl (maps : M → LinkMap p M) : SameTables maps maps := fun map =>
  ⟨(maps map).lUsed, rfl⟩

omit [Fintype M] in
theorem SameTables.markUsed {maps maps' : M → LinkMap p M} (h : SameTables maps maps') (used : M) :
    SameTables maps (markUsed maps' used) := by
  intro map
  unfold Memhook.markUsed
  split
  · by_cases heq : map = used
    · subst heq
      obtain ⟨lUsed, hmap⟩ := h map
      refine ⟨1, ?_⟩
      rw [Function.update_self, hmap]
    · rw [Function.update_of_ne heq]
      exact h map
  · exact h map

omit [Fintype M] in
theorem SameTables.of_reply {maps maps' : M → LinkMap p M} (h : SameTables maps maps')
    (found : Option (SymRef M)) : SameTables maps (LookupReply.of maps' found).maps := by
  cases found with
  | none => exact h
  | some sym => exact h.markUsed sym.map

section Same

omit [Fintype M]

variable {maps maps' : M → LinkMap p M} (h : SameTables maps maps')

include h

omit [DecidableEq M] in
theorem SameTables.lReal (map : M) : (maps' map).lReal = (maps map).lReal := by
  obtain ⟨lUsed, hmap⟩ := h map
  rw [hmap]

omit [DecidableEq M] in
theorem SameTables.symtab (map : M) : (maps' map).symtab = (maps map).symtab := by
  obtain ⟨lUsed, hmap⟩ := h map
  rw [hmap]

omit [DecidableEq M] in
theorem SameTables.searchable {map : M} {first : ℕ} (hmap : Searchable (maps map) first) :
    Searchable (maps' map) first := by
  obtain ⟨lUsed, hsame⟩ := h map
  rw [hsame]
  obtain ⟨hwellFormed, hunique⟩ := hmap
  refine ⟨fun hnbuckets => ?_, hunique⟩
  have htable := hwellFormed hnbuckets
  cases htype : (maps map).table with
  | gnu bitmask idxbits shift buckets chainZero =>
      simp only [htype] at htable ⊢
      exact ⟨⟨htable.length_buckets, htable.chain, htable.mem_chain⟩, htable.idxbits_lt,
        htable.shift_lt, htable.word, htable.bloom⟩
  | sysv buckets chain =>
      simp only [htype] at htable ⊢
      exact ⟨⟨htable.length_buckets, htable.chain, htable.mem_chain⟩, htable.symbias_eq⟩

theorem SameTables.searchMap (first : M → ℕ) (name : CString) (skipMap : Option M) (map : M) :
    searchMap maps' first name skipMap map = searchMap maps first name skipMap map := by
  obtain ⟨lUsed, hsame⟩ := h map
  have hsearched : Searched maps' skipMap map ↔ Searched maps skipMap map := by
    unfold Searched
    rw [hsame]
  have haccepts : (maps' map).accepts name = (maps map).accepts name := by
    rw [hsame]
    rfl
  have hsymbols : (maps' map).symbolsFrom (first map) = (maps map).symbolsFrom (first map) := by
    rw [hsame]
    rfl
  unfold Memhook.searchMap
  rw [haccepts, hsymbols]
  exact if_congr hsearched rfl rfl

theorem SameTables.linearSearch (first : M → ℕ) (name : CString) (scopes : List (List M))
    (skipMap : Option M) :
    linearSearch maps' first name scopes skipMap = linearSearch maps first name scopes skipMap := by
  unfold Memhook.linearSearch
  refine congrArg (fun visit => List.findSome? visit _) (funext fun id => ?_)
  rw [h.lReal, h.searchMap]

end Same

omit [DecidableEq M] [Fintype M] in
theorem MayAsk.same (h : process.MayAsk symbias who caller l) {maps : M → LinkMap p M}
    (hsame : SameTables process.maps maps) :
    ({ process with maps } : LinkedProcess p M).MayAsk symbias who caller l where
  found := h.found
  loaders := h.loaders
  tables id hid := by
    rw [hsame.lReal id]
    exact hsame.searchable (h.tables id hid)
  listed := h.listed
  nonempty := h.nonempty

omit [Fintype M] in
theorem nextFunction_same {maps : M → LinkMap p M} (hsame : SameTables process.maps maps)
    (name : CString) (caller l : M) :
    ({ process with maps } : LinkedProcess p M).nextFunction symbias name caller l =
      process.nextFunction symbias name caller l := by
  unfold nextFunction
  simp only [hsame.linearSearch]
  cases linearSearch process.maps symbias name (process.lLocalScope l) (some caller) with
  | none => rfl
  | some sym => simp only [hsame.symtab]

/-- The libraries of `libraries`, each of them loaded by the next one; the library of the hooks
asks. -/
def librariesProcess : LinkedProcess lp64 (Fin 3) where
  maps := libraries
  lLoader map := (List.finRange 3)[map.val + 1]?
  lAddr map := BitVec.ofNat 64 (65536 * map.val)
  lLocalScope _ := [List.finRange 3]
  findDsoForObject := some fun _ => (List.finRange 3).head?

end LinkedProcess

end Memhook
