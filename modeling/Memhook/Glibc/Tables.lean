import Memhook.Glibc.Lookup

/-!
# Hash tables of symbols

A table is well formed when every bucket leads to a chain that ends, and every symbol of the
table is in the chain of the bucket of its hash.  In a table of GNU the word of a symbol also
carries the hash, and the two bits of the Bloom filter are set.  The hashes in these conditions
are the ones of the definitions, `gnuHash` and `sysvHash`.

Which symbols are in a table is known to the linker only: those from an index `symbias` on.
Before them are local symbols and, in a table of GNU, the ones that the object does not define.

In a well-formed table a lookup finds the defined function of the name: the chain of the bucket
has all symbols of the name, and in a table of GNU neither the Bloom filter nor the hash in the
words rules one of them out.
-/

namespace Memhook

open Search

variable {p : ElfPlatform} {M : Type*}

/-! ## The symbols of a map -/

namespace LinkMap

variable (map : LinkMap p M) (name : CString)

/-- The symbol is a defined function of this name. -/
def defines (symidx : ℕ) : Bool :=
  map.symtab[symidx]?.any fun entry =>
    entry.stType = sttFunc ∧ entry.stValue ≠ 0#_ ∧ map.strtab entry.stName = name

/-- The symbol can be bound to from outside. -/
def exports (symidx : ℕ) : Bool :=
  map.symtab[symidx]?.any fun entry => entry.stBind = stbWeak ∨ entry.stBind = stbGlobal

/-- The symbol is what a lookup of the name looks for. -/
def accepts (symidx : ℕ) : Bool := map.defines name symidx && map.exports symidx

/-- The symbols of the map from an index on. -/
def symbolsFrom (first : ℕ) : List ℕ := List.range' first (map.symtab.length - first)

/-- The name of a symbol. -/
def symName (entry : ElfSym p) : CString := map.strtab entry.stName

variable {map name} {first i : ℕ}

theorem mem_symbolsFrom : i ∈ map.symbolsFrom first ↔ first ≤ i ∧ i < map.symtab.length := by
  rw [symbolsFrom, List.mem_range'_1]
  omega

theorem exists_entry (hi : i < map.symtab.length) : ∃ entry, map.symtab[i]? = some entry :=
  ⟨_, List.getElem?_eq_getElem hi⟩

theorem accepts_eq_false_of_le (hi : map.symtab.length ≤ i) : map.accepts name i = false := by
  rw [accepts, defines, List.getElem?_eq_none hi]
  rfl

theorem exists_of_defines (h : map.defines name i = true) :
    ∃ entry, map.symtab[i]? = some entry ∧ map.symName entry = name := by
  obtain ⟨entry, hentry, hdefined⟩ := (Option.any_eq_true _ _).mp h
  have hboth := of_decide_eq_true hdefined
  exact ⟨entry, hentry, hboth.2.2⟩

end LinkMap

/-! ## The tables -/

/-- The buckets and the chains for the symbols from `symbias` on. -/
structure Chained (map : LinkMap p M) (symbias : ℕ) (hash : CString → ℕ) (buckets : List UInt32)
    (next : ℕ → Option (Option ℕ)) : Prop where
  length_buckets : buckets.length = map.lNbuckets.toNat
  /-- A bucket leads to symbols of the table, and to an end. -/
  chain : ∀ bucket ∈ buckets, bucket ≠ 0 →
    ∃ path, Path next bucket.toNat path ∧ ∀ i ∈ path, symbias ≤ i ∧ i < map.symtab.length
  /-- A symbol is in the chain of its bucket. -/
  mem_chain : ∀ i entry, symbias ≤ i → map.symtab[i]? = some entry →
    ∃ bucket path, buckets[hash (map.symName entry) % map.lNbuckets.toNat]? = some bucket ∧
      bucket ≠ 0 ∧ Path next bucket.toNat path ∧ i ∈ path

/-- A hash table of GNU.  By `gnuNext` a chain goes up, and the low bit of the words marks its
last symbol. -/
structure GnuWellFormed (map : LinkMap p M) (symbias : ℕ) (bitmask : List (BitVec p.native.bits))
    (idxbits shift : UInt32) (buckets chainZero : List UInt32) : Prop extends
    Chained map symbias gnuHash buckets (gnuNext chainZero) where
  idxbits_lt : idxbits.toNat < bitmask.length
  shift_lt : shift.toNat < p.fast.bits
  /-- The word of a symbol has its hash, but for the low bit. -/
  word : ∀ i entry, symbias ≤ i → map.symtab[i]? = some entry →
    ∃ word, chainZero[i]? = some word ∧ word.toNat / 2 = gnuHash (map.symName entry) / 2
  /-- Both bits of a symbol are set in the Bloom filter. -/
  bloom : ∀ i entry, symbias ≤ i → map.symtab[i]? = some entry →
    ∃ word, bitmask[gnuHash (map.symName entry) / p.native.bits &&& idxbits.toNat]? = some word ∧
      word.getLsbD (gnuHash (map.symName entry) % p.native.bits) = true ∧
      word.getLsbD (gnuHash (map.symName entry) / 2 ^ shift.toNat % p.native.bits) = true

/-- A hash table of System V, which has all symbols but the first, `STN_UNDEF`. -/
structure SysvWellFormed (map : LinkMap p M) (symbias : ℕ) (buckets chain : List UInt32) :
    Prop extends
    Chained map symbias (fun name => (sysvHash name).toNat) buckets (sysvNext chain) where
  symbias_eq : symbias = 1

/-- The hash table of a map, if the map has buckets, is well formed. -/
def LinkMap.WellFormed (map : LinkMap p M) (symbias : ℕ) : Prop :=
  map.lNbuckets ≠ 0 →
    match map.table with
    | .gnu bitmask idxbits shift buckets chainZero =>
        GnuWellFormed map symbias bitmask idxbits shift buckets chainZero
    | .sysv buckets chain => SysvWellFormed map symbias buckets chain

/-- No two defined functions of the map have one name. -/
def LinkMap.UniqueFunctions (map : LinkMap p M) : Prop :=
  ∀ name i j, map.defines name i = true → map.defines name j = true → i = j

/-- A map whose table can be searched. -/
structure Searchable (map : LinkMap p M) (symbias : ℕ) : Prop where
  wellFormed : map.WellFormed symbias
  unique : map.UniqueFunctions

/-- The binding is asked of the symbol that was found; no other would do. -/
theorem LinkMap.find?_accepts {map : LinkMap p M} {name : CString}
    (hunique : map.UniqueFunctions) (first : ℕ) :
    (map.symbolsFrom first).find? (map.accepts name) =
      ((map.symbolsFrom first).find? (map.defines name)).filter map.exports :=
  (filter_find? (fun i _ j _ => hunique name i j) map.exports).symm

/-! ## The chains -/

section Chains

variable {maps : M → LinkMap p M} {name : CString} {map : M} {symbias : ℕ}

/-- A visit of the symbols in a bucket finds what a search of all symbols finds. -/
theorem Chained.walk_bucket {hash : CString → ℕ} {buckets : List UInt32}
    {next : ℕ → Option (Option ℕ)} (h : Chained (maps map) symbias hash buckets next)
    (hnbuckets : (maps map).lNbuckets ≠ 0) (hunique : (maps map).UniqueFunctions)
    {visit : ℕ → Option (Option (SymRef M))} {fuel : ℕ}
    (hvisit : ∀ i, symbias ≤ i → i < (maps map).symtab.length →
      visit i = some ((Option.guard ((maps map).defines name) i).map (SymRef.mk map)))
    (hfuel : ∀ i, (next i).isSome → i < fuel) :
    (buckets[hash name % (maps map).lNbuckets.toNat]?.bind fun bucket =>
      if bucket ≠ 0 then walk visit next fuel bucket.toNat else some none) =
      some ((((maps map).symbolsFrom symbias).find? ((maps map).defines name)).map
        (SymRef.mk map)) := by
  have hindex : hash name % (maps map).lNbuckets.toNat < buckets.length := by
    rw [h.length_buckets]
    exact Nat.mod_lt _ (Nat.pos_of_ne_zero fun hzero => hnbuckets (UInt32.toNat_inj.mp hzero))
  set index := hash name % (maps map).lNbuckets.toNat
  obtain ⟨bucket, hbucket⟩ : ∃ bucket, buckets[index]? = some bucket :=
    ⟨_, List.getElem?_eq_getElem hindex⟩
  -- whoever defines the name is in this bucket
  have hmem : ∀ i ∈ (maps map).symbolsFrom symbias, (maps map).defines name i = true →
      bucket ≠ 0 ∧ ∃ path, Path next bucket.toNat path ∧ i ∈ path := by
    intro i hi hdefines
    obtain ⟨entry, hentry, hname⟩ := LinkMap.exists_of_defines hdefines
    obtain ⟨bucket', path, hbucket', hne, hpath, hi'⟩ :=
      h.mem_chain i entry (LinkMap.mem_symbolsFrom.mp hi).1 hentry
    rw [hname] at hbucket'
    obtain rfl : bucket = bucket' := Option.some_injective _ (hbucket.symm.trans hbucket')
    exact ⟨hne, path, hpath, hi'⟩
  rw [hbucket, Option.bind_some]
  by_cases hzero : bucket = 0
  · have hnone : ((maps map).symbolsFrom symbias).find? ((maps map).defines name) = none := by
      rw [List.find?_eq_none]
      intro i hi hdefines
      exact (hmem i hi hdefines).1 hzero
    rw [if_neg (not_not.mpr hzero), hnone]
    rfl
  · obtain ⟨path, hpath, hrange⟩ := h.chain bucket (List.mem_of_getElem? hbucket) hzero
    have hsame : path.find? ((maps map).defines name) =
        ((maps map).symbolsFrom symbias).find? ((maps map).defines name) := by
      refine find?_eq_find? (fun i _ j _ => hunique name i j) fun i => ⟨?_, ?_⟩
      · rintro ⟨hi, hdefines⟩
        exact ⟨LinkMap.mem_symbolsFrom.mpr (hrange i hi), hdefines⟩
      · rintro ⟨hi, hdefines⟩
        obtain ⟨-, path', hpath', hi'⟩ := hmem i hi hdefines
        rw [hpath.unique hpath']
        exact ⟨hi', hdefines⟩
    rw [if_pos hzero, walk_eq_findSome? hpath
      (fun i hi => hvisit i (hrange i hi).1 (hrange i hi).2) (hpath.length_le hfuel), ← hsame,
      ← List.findSome?_guard, List.map_findSome?]
    rfl

end Chains

variable [DecidableEq M]

/-! ## What is checked of a symbol -/

section Match

variable {maps : M → LinkMap p M} {name : CString} {ref : Option (SymRef M)}

/-- A reference, if there is one, is to a symbol of the name that is looked up. -/
def RefNamed (maps : M → LinkMap p M) (name : CString) (ref : Option (SymRef M)) : Prop :=
  ∀ sym ∈ ref, ∀ entry ∈ (maps sym.map).symtab[sym.symidx]?,
    (maps sym.map).symName entry = name

theorem stType_lt (entry : ElfSym p) : entry.stType < 16 := by
  have h := Nat.and_le_right (n := entry.stInfo.toNat) (m := 15)
  rw [ElfSym.stType, UInt8.toNat_and]
  exact Nat.lt_succ_of_le h

/-- The test by two bits is a comparison. -/
theorem typeMask_eq_zero_iff (entry : ElfSym p) :
    (1#32 <<< entry.stType) &&& (1#32 <<< sttFunc) = 0#32 ↔ entry.stType ≠ sttFunc := by
  have hcases : ∀ n < 16, (1#32 <<< n) &&& (1#32 <<< sttFunc) = 0#32 ↔ n ≠ sttFunc := by decide
  exact hcases _ (stType_lt entry)

theorem checkMatch_eq (href : RefNamed maps name ref) {map : M} {i : ℕ}
    (hi : i < (maps map).symtab.length) :
    checkMatch maps name ref ⟨map, i⟩ =
      some ((Option.guard ((maps map).defines name) i).map (SymRef.mk map)) := by
  obtain ⟨entry, hentry⟩ := LinkMap.exists_entry hi
  have hname : (some ⟨map, i⟩ ≠ ref ∧ (maps map).strtab entry.stName ≠ name) ↔
      (maps map).strtab entry.stName ≠ name := by
    refine and_iff_right_of_imp fun hne href' => hne ?_
    exact href ⟨map, i⟩ href'.symm entry hentry
  simp only [checkMatch, hentry, Option.map_some, hname, typeMask_eq_zero_iff,
    Option.guard_apply, LinkMap.defines, Option.any_some, decide_eq_true_eq]
  split_ifs <;> tauto

end Match

/-! ## The two tables -/

section Tables

variable {maps : M → LinkMap p M} {name : CString} {ref : Option (SymRef M)} {map : M}
  {symbias : ℕ}

theorem isSome_gnuNext {chainZero : List UInt32} {i : ℕ} :
    (gnuNext chainZero i).isSome ↔ i < chainZero.length := by
  simp [gnuNext]

theorem isSome_sysvNext {chain : List UInt32} {i : ℕ} :
    (sysvNext chain i).isSome ↔ i < chain.length := by
  simp [sysvNext]

theorem toNat_setWidth_word (word : UInt32) (size : WordSize) :
    (word.toBitVec.setWidth size.bits).toNat = word.toNat := by
  rw [BitVec.toNat_setWidth]
  exact Nat.mod_eq_of_lt (word.toNat_lt.trans_le (Nat.pow_le_pow_right (by decide) size.le_bits))

theorem WordSize.toNat_ofNat_bits (size size' : WordSize) :
    (BitVec.ofNat size.bits size'.bits).toNat = size'.bits := by
  cases size <;> cases size' <;> rfl

/-- Masking is the remainder by the width of a word. -/
theorem WordSize.toNat_and_bits (size size' : WordSize) (x : BitVec size.bits) :
    (x &&& BitVec.ofNat size.bits (size'.bits - 1)).toNat = x.toNat % size'.bits := by
  have hmask : (BitVec.ofNat size.bits (size'.bits - 1)).toNat = size'.bits - 1 := by
    cases size <;> cases size' <;> rfl
  rw [BitVec.toNat_and, hmask]
  cases size' with
  | bits32 => exact Nat.and_two_pow_sub_one_eq_mod x.toNat 5
  | bits64 => exact Nat.and_two_pow_sub_one_eq_mod x.toNat 6

/-- The test of the Bloom filter. -/
theorem bloom_ne_zero_iff {w : ℕ} (hw : 0 < w) (word : BitVec w) (i j : ℕ) :
    (word >>> i) &&& (word >>> j) &&& 1#w ≠ 0#w ↔
      word.getLsbD i = true ∧ word.getLsbD j = true := by
  have hbit : ∀ k, ((word >>> i) &&& (word >>> j) &&& 1#w).getLsbD k =
      (decide (k = 0) && (word.getLsbD i && word.getLsbD j)) := by
    intro k
    rw [BitVec.getLsbD_and, BitVec.getLsbD_and, BitVec.getLsbD_ushiftRight,
      BitVec.getLsbD_ushiftRight, BitVec.getLsbD_one]
    by_cases hk : k = 0 <;> simp [hk, hw]
  rw [← Bool.and_eq_true_iff, ← Bool.not_eq_false, not_iff_not]
  constructor
  · intro hzero
    have hlow := congrArg (BitVec.getLsbD · 0) hzero
    rw [hbit 0] at hlow
    simpa using hlow
  · intro hfalse
    apply BitVec.eq_of_getLsbD_eq
    intro k _
    rw [hbit k, hfalse, Bool.and_false]
    exact BitVec.getLsbD_zero.symm

/-- Two words agree but for the low bit. -/
theorem xor_shift_eq_zero_iff {w : ℕ} (x y : BitVec w) :
    (x ^^^ y) >>> 1 = 0#w ↔ x.toNat / 2 = y.toNat / 2 := by
  rw [BitVec.ushiftRight_xor_distrib, BitVec.xor_eq_zero_iff, ← BitVec.toNat_inj,
    BitVec.toNat_ushiftRight, BitVec.toNat_ushiftRight, Nat.shiftRight_eq_div_pow,
    Nat.shiftRight_eq_div_pow, pow_one]

/-- A visit in a chain of GNU.  The symbols of the name have the hash, and no other symbol is
accepted for having it. -/
theorem gnuVisit_eq {bitmask : List (BitVec p.native.bits)} {idxbits shift : UInt32}
    {buckets chainZero : List UInt32}
    (h : GnuWellFormed (maps map) symbias bitmask idxbits shift buckets chainZero)
    (href : RefNamed maps name ref) {i : ℕ} (hsymbias : symbias ≤ i)
    (hi : i < (maps map).symtab.length) :
    gnuVisit maps name (dlNewHash p.fast name) ref map chainZero i =
      some ((Option.guard ((maps map).defines name) i).map (SymRef.mk map)) := by
  obtain ⟨entry, hentry⟩ := LinkMap.exists_entry hi
  obtain ⟨word, hword, hhash⟩ := h.word i entry hsymbias hentry
  rw [gnuVisit, hword, Option.bind_some, Nat.mod_eq_of_lt (hi.trans_le (maps map).symtab_le)]
  split
  · exact checkMatch_eq href hi
  next hdiffers =>
    rw [xor_shift_eq_zero_iff, toNat_setWidth_word, toNat_dlNewHash] at hdiffers
    have hdefines : (maps map).defines name i = false := by
      rw [Bool.eq_false_iff]
      intro hdefines
      obtain ⟨entry', hentry', hname⟩ := LinkMap.exists_of_defines hdefines
      obtain rfl : entry = entry' := Option.some_injective _ (hentry.symm.trans hentry')
      rw [hname] at hhash
      exact hdiffers hhash
    rw [Option.guard_eq_none_iff.mpr hdefines]
    rfl

theorem gnuLookup_eq {bitmask : List (BitVec p.native.bits)} {idxbits shift : UInt32}
    {buckets chainZero : List UInt32}
    (h : GnuWellFormed (maps map) symbias bitmask idxbits shift buckets chainZero)
    (hnbuckets : (maps map).lNbuckets ≠ 0) (hunique : (maps map).UniqueFunctions)
    (href : RefNamed maps name ref) :
    gnuLookup maps name (dlNewHash p.fast name) ref map bitmask idxbits shift buckets chainZero =
      some ((((maps map).symbolsFrom symbias).find? ((maps map).defines name)).map
        (SymRef.mk map)) := by
  -- the places that are read, by the hash of the definition
  have hwordIndex : (dlNewHash p.fast name / BitVec.ofNat _ p.native.bits &&&
      idxbits.toBitVec.setWidth p.fast.bits).toNat =
        gnuHash name / p.native.bits &&& idxbits.toNat := by
    rw [BitVec.toNat_and, BitVec.toNat_udiv, WordSize.toNat_ofNat_bits, toNat_setWidth_word,
      toNat_dlNewHash]
  have hbit : (dlNewHash p.fast name >>> shift.toNat).toNat =
      gnuHash name / 2 ^ shift.toNat := by
    rw [BitVec.toNat_ushiftRight, toNat_dlNewHash, Nat.shiftRight_eq_div_pow]
  have hindex : (dlNewHash p.fast name % (maps map).lNbuckets.toBitVec.setWidth p.fast.bits).toNat =
      gnuHash name % (maps map).lNbuckets.toNat := by
    rw [BitVec.toNat_umod, toNat_setWidth_word, toNat_dlNewHash]
  obtain ⟨bitmaskWord, hbitmask⟩ : ∃ word,
      bitmask[gnuHash name / p.native.bits &&& idxbits.toNat]? = some word :=
    ⟨_, List.getElem?_eq_getElem (Nat.and_le_right.trans_lt h.idxbits_lt)⟩
  have hpos : 0 < p.native.bits := lt_of_lt_of_le (by decide) p.native.le_bits
  simp only [gnuLookup, hwordIndex, hbitmask, Option.bind_some, if_pos h.shift_lt,
    WordSize.toNat_and_bits, hbit, toNat_dlNewHash, bloom_ne_zero_iff hpos, hindex]
  split
  · exact h.walk_bucket hnbuckets hunique (fun i => gnuVisit_eq h href)
      (fun i => isSome_gnuNext.mp)
  next hbloom =>
    -- a symbol of the name would have set the bits
    have hnone : ((maps map).symbolsFrom symbias).find? ((maps map).defines name) = none := by
      rw [List.find?_eq_none]
      intro i hi hdefines
      obtain ⟨entry, hentry, hname⟩ := LinkMap.exists_of_defines hdefines
      obtain ⟨word, hword, hbits⟩ := h.bloom i entry (LinkMap.mem_symbolsFrom.mp hi).1 hentry
      rw [hname] at hword hbits
      obtain rfl : bitmaskWord = word := Option.some_injective _ (hbitmask.symm.trans hword)
      exact hbloom hbits
    rw [hnone]
    rfl

theorem sysvLookup_eq {buckets chain : List UInt32} {oldHash : BitVec p.long.bits}
    (h : SysvWellFormed (maps map) symbias buckets chain)
    (hhash : oldHash = (dlElfHash p.long name).setWidth p.long.bits)
    (hnbuckets : (maps map).lNbuckets ≠ 0) (hunique : (maps map).UniqueFunctions)
    (href : RefNamed maps name ref) :
    sysvLookup maps name oldHash ref map buckets chain =
      some ((((maps map).symbolsFrom symbias).find? ((maps map).defines name)).map
        (SymRef.mk map)) := by
  have hvalue : oldHash.toNat = (sysvHash name).toNat := by
    rw [hhash, BitVec.toNat_setWidth, dlElfHash_eq, sysvHash_eq]
    exact Nat.mod_eq_of_lt ((BitVec.isLt _).trans_le
      (Nat.pow_le_pow_right (by decide) p.long.le_bits))
  simp only [sysvLookup, BitVec.toNat_umod, toNat_setWidth_word, hvalue]
  exact h.walk_bucket hnbuckets hunique (fun i _ hi => checkMatch_eq href hi)
    (fun i => isSome_sysvNext.mp)

end Tables

end Memhook
