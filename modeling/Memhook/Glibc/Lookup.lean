import Memhook.Glibc.Hashes
import Memhook.Lib.Search

/-!
# Looking a symbol up

While the hooks are not set up yet, the functions below them are found in the tables that the
dynamic linker keeps.  `src/memhook/glibc.cpp` has its own copy of the search: the maps of a
scope are tried one after the other, and in a map the symbol is looked up in the hash table of
GNU, if the map has one, or else in the one of System V.

The search reads arrays whose ends it does not know.  A result of `none` stands for a run that
C does not define or that does not end: a read outside an array, a shift by too much, a chain
that comes back to itself.  Pointers to link maps are the elements of a type `M`.
-/

namespace Memhook

/-- The widths of the types. -/
structure ElfPlatform where
  /-- `__ELF_NATIVE_CLASS`, which is the width of `ElfW(Addr)`. -/
  native : WordSize
  /-- The width of `unsigned long`. -/
  long : WordSize
  /-- The width of `uint_fast32_t`. -/
  fast : WordSize

def sttFunc : ℕ := 2
def stbGlobal : ℕ := 1
def stbWeak : ℕ := 2

/-- `ElfW(Sym)`. -/
structure ElfSym (p : ElfPlatform) where
  stName : UInt32
  stInfo : UInt8
  stValue : BitVec p.native.bits

namespace ElfSym

variable {p : ElfPlatform}

/-- `ELF_ST_TYPE`. -/
def stType (sym : ElfSym p) : ℕ := (sym.stInfo &&& 0xf).toNat

/-- `ELF_ST_BIND`. -/
def stBind (sym : ElfSym p) : ℕ := (sym.stInfo >>> 4).toNat

end ElfSym

/-- The hash table of a link map: with a `l_gnu_bitmask`, or without. -/
inductive HashTable (p : ElfPlatform)
  | gnu (bitmask : List (BitVec p.native.bits)) (idxbits shift : UInt32)
      (buckets chainZero : List UInt32)
  | sysv (buckets chain : List UInt32)

/-- `GLIBC_link_map`. -/
structure LinkMap (p : ElfPlatform) (M : Type*) where
  lReal : M
  lRemoved : Bool
  lNbuckets : UInt32
  table : HashTable p
  /-- `DT_SYMTAB`. -/
  symtab : List (ElfSym p)
  /-- The string that begins at an offset of `DT_STRTAB`. -/
  strtab : UInt32 → CString
  lUsed : UInt32
  /-- A symbol has an `Elf_Symndx`. -/
  symtab_le : symtab.length ≤ 2 ^ 32

/-- A pointer to an entry of the `symtab` of a map. -/
structure SymRef (M : Type*) where
  map : M
  symidx : ℕ
  deriving DecidableEq

/-- `GLIBC_sym_val`. -/
structure SymVal (M : Type*) where
  s : Option (SymRef M)
  m : Option M

variable {p : ElfPlatform} {M : Type*} [DecidableEq M]

/-! ## One map -/

/-- `GLIBC_check_match`. -/
def checkMatch (maps : M → LinkMap p M) (undefName : CString) (ref : Option (SymRef M))
    (sym : SymRef M) : Option (Option (SymRef M)) :=
  (maps sym.map).symtab[sym.symidx]?.map fun entry =>
    if (1#32 <<< entry.stType) &&& (1#32 <<< sttFunc) = 0#32 ∨ entry.stValue = 0#_ then none
    else if some sym ≠ ref ∧ (maps sym.map).strtab entry.stName ≠ undefName then none
    else some sym

/-- The body of the loop over a chain of GNU. -/
def gnuVisit (maps : M → LinkMap p M) (undefName : CString) (newHash : BitVec p.fast.bits)
    (ref : Option (SymRef M)) (map : M) (chainZero : List UInt32) (pos : ℕ) :
    Option (Option (SymRef M)) :=
  chainZero[pos]?.bind fun word =>
    if (word.toBitVec.setWidth p.fast.bits ^^^ newHash) >>> 1 = 0#_ then
      -- the difference of the pointers becomes an `Elf_Symndx`
      checkMatch maps undefName ref ⟨map, pos % 2 ^ 32⟩
    else some none

/-- `while ((*hasharr++ & 1u) == 0)`. -/
def gnuNext (chainZero : List UInt32) (pos : ℕ) : Option (Option ℕ) :=
  chainZero[pos]?.map fun word => if word &&& 1 = 0 then some (pos + 1) else none

/-- The lookup in a hash table of GNU.  The chain goes up, so its end is found within the
length of the array or not at all. -/
def gnuLookup (maps : M → LinkMap p M) (undefName : CString) (newHash : BitVec p.fast.bits)
    (ref : Option (SymRef M)) (map : M) (bitmask : List (BitVec p.native.bits))
    (idxbits shift : UInt32) (buckets chainZero : List UInt32) : Option (Option (SymRef M)) :=
  let word := newHash / BitVec.ofNat _ p.native.bits &&& idxbits.toBitVec.setWidth p.fast.bits
  bitmask[word.toNat]?.bind fun bitmaskWord =>
    if shift.toNat < p.fast.bits then
      let hashbit1 := newHash &&& BitVec.ofNat _ (p.native.bits - 1)
      let hashbit2 := (newHash >>> shift.toNat) &&& BitVec.ofNat _ (p.native.bits - 1)
      if (bitmaskWord >>> hashbit1.toNat) &&& (bitmaskWord >>> hashbit2.toNat) &&& 1#_ ≠ 0#_ then
        let index := newHash % (maps map).lNbuckets.toBitVec.setWidth p.fast.bits
        buckets[index.toNat]?.bind fun bucket =>
          if bucket ≠ 0 then
            Search.walk (gnuVisit maps undefName newHash ref map chainZero) (gnuNext chainZero)
              chainZero.length bucket.toNat
          else some none
      else some none
    else none

/-- `symidx = map->l_chain[symidx]`, until `STN_UNDEF`. -/
def sysvNext (chain : List UInt32) (symidx : ℕ) : Option (Option ℕ) :=
  chain[symidx]?.map fun next => if next ≠ 0 then some next.toNat else none

/-- The lookup in a hash table of System V.  A chain that has not ended after as many symbols
as there are came back to one. -/
def sysvLookup (maps : M → LinkMap p M) (undefName : CString) (oldHash : BitVec p.long.bits)
    (ref : Option (SymRef M)) (map : M) (buckets chain : List UInt32) :
    Option (Option (SymRef M)) :=
  let index := oldHash % (maps map).lNbuckets.toBitVec.setWidth p.long.bits
  buckets[index.toNat]?.bind fun symidx =>
    if symidx ≠ 0 then
      Search.walk (fun symidx => checkMatch maps undefName ref ⟨map, symidx⟩) (sysvNext chain)
        chain.length symidx.toNat
    else some none

/-! ## The maps of a scope -/

/-- What `GLIBC_do_lookup` changes. -/
structure LookupState (p : ElfPlatform) (M : Type*) where
  oldHash : BitVec p.long.bits
  result : SymVal M

/-- The value of `old_hash` before it is needed. -/
def noHash (p : ElfPlatform) : BitVec p.long.bits := 0xffffffff#_

/-- The lookup in one of the two tables. -/
def lookupInMap (maps : M → LinkMap p M) (undefName : CString) (newHash : BitVec p.fast.bits)
    (ref : Option (SymRef M)) (map : M) (oldHash : BitVec p.long.bits) :
    Option (Option (SymRef M) × BitVec p.long.bits) :=
  match (maps map).table with
  | .gnu bitmask idxbits shift buckets chainZero =>
      (gnuLookup maps undefName newHash ref map bitmask idxbits shift buckets chainZero).map
        fun sym => (sym, oldHash)
  | .sysv buckets chain =>
      let oldHash :=
        if oldHash = noHash p then (dlElfHash p.long undefName).setWidth p.long.bits else oldHash
      (sysvLookup maps undefName oldHash ref map buckets chain).map fun sym => (sym, oldHash)

/-- The loop body of `GLIBC_do_lookup`; whether it returns 1, or goes to the next map. -/
def doLookupRound (maps : M → LinkMap p M) (undefName : CString) (newHash : BitVec p.fast.bits)
    (ref : Option (SymRef M)) (skip : Option M) (id : M) (state : LookupState p M) :
    Option (Bool × LookupState p M) :=
  let map := (maps id).lReal
  if some map = skip then some (false, state)
  else if (maps map).lRemoved then some (false, state)
  else if (maps map).lNbuckets = 0 then some (false, state)
  else
    (lookupInMap maps undefName newHash ref map state.oldHash).bind fun
      | (none, oldHash) => some (false, { state with oldHash })
      | (some sym, oldHash) =>
          (maps sym.map).symtab[sym.symidx]?.map fun entry =>
            if entry.stBind = stbWeak ∨ entry.stBind = stbGlobal then
              (true, { oldHash, result := ⟨some sym, some map⟩ })
            else (false, { state with oldHash })

/-- `GLIBC_do_lookup`, for what is left of the list of the scope.  The first map is read before
`i` is compared with `r_nlist`. -/
def doLookup (maps : M → LinkMap p M) (undefName : CString) (newHash : BitVec p.fast.bits)
    (ref : Option (SymRef M)) (skip : Option M) :
    List M → LookupState p M → Option (ℤ × LookupState p M)
  | [], _ => none
  | id :: rest, state =>
      (doLookupRound maps undefName newHash ref skip id state).bind fun
        | (true, state) => some (1, state)
        | (false, state) =>
            if rest = [] then some (0, state)
            else doLookup maps undefName newHash ref skip rest state

/-! ## The scopes -/

/-- `while ((*scope)->r_list[i] != skip_map) ++i`. -/
def skipIndex (skipMap : M) : List M → Option ℕ
  | [] => none
  | id :: rest => if id ≠ skipMap then (skipIndex skipMap rest).map (· + 1) else some 0

/-- The loop of `GLIBC_dl_lookup_symbol` over the scopes: `current_value` after it, or nothing
where the function returns from the loop. -/
def scopeLoop (maps : M → LinkMap p M) (undefName : CString) (newHash : BitVec p.fast.bits)
    (ref : Option (SymRef M)) (skipMap : Option M) :
    ℕ → List (List M) → LookupState p M → Option (Option (SymVal M))
  | _, [], state => some (some state.result)
  | start, scope :: scopes, state =>
      (doLookup maps undefName newHash ref skipMap (scope.drop start) state).bind fun
        | (res, state) =>
            if res > 0 then some (some state.result)
            else if res < 0 ∧ skipMap = none then some none
            else scopeLoop maps undefName newHash ref skipMap 0 scopes state

/-- What `GLIBC_dl_lookup_symbol` returns, `*ref` afterwards, and the maps afterwards. -/
structure LookupReply (p : ElfPlatform) (M : Type*) where
  map : Option M
  ref : Option (SymRef M)
  maps : M → LinkMap p M

/-- `l_used` is set. -/
def markUsed (maps : M → LinkMap p M) (map : M) : M → LinkMap p M :=
  if (maps map).lUsed = 0 then Function.update maps map { maps map with lUsed := 1 } else maps

/-- `GLIBC_dl_lookup_symbol` after the loop over the scopes. -/
def lookupReturn (maps : M → LinkMap p M) : Option (SymVal M) → Option (LookupReply p M)
  | none => some ⟨none, none, maps⟩
  | some ⟨none, _⟩ => some ⟨none, none, maps⟩
  | some ⟨some sym, m⟩ => m.map fun map => ⟨some map, some sym, markUsed maps map⟩

/-- `GLIBC_dl_lookup_symbol`. -/
def dlLookupSymbol (maps : M → LinkMap p M) (undefName : CString) (ref : Option (SymRef M))
    (symbolScope : List (List M)) (skipMap : Option M) : Option (LookupReply p M) :=
  let newHash := dlNewHash p.fast undefName
  let start :=
    match skipMap with
    | none => some 0
    | some skip => symbolScope.head?.bind (skipIndex skip)
  start.bind fun start =>
    (scopeLoop maps undefName newHash ref skipMap start symbolScope ⟨noHash p, ⟨none, none⟩⟩).bind
      (lookupReturn maps)

end Memhook
