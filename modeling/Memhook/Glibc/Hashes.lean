import Mathlib.Data.List.Basic
import Mathlib.Data.Nat.Bitwise

/-!
# The hashes of symbol names

`src/memhook/glibc.cpp` looks symbols up in the hash tables of loaded objects, and for this it
needs the hash of System V and the one of GNU.

The hash of System V has 28 bits.  Its definition clears the four bits above them in every
round.  `GLIBC_dl_elf_hash` does so once at the end: what is above bit 27 only moves further
up, and the four bits that are folded back are taken from the 28 that count.  Both are the
hash on 28 bits, `round28`, seen in a wider word.

`unsigned long` and `uint_fast32_t` have 32 or 64 bits.
-/

namespace Memhook

/-- The width of `unsigned long` or `uint_fast32_t`. -/
inductive WordSize
  | bits32
  | bits64
  deriving DecidableEq, Repr

def WordSize.bits : WordSize → ℕ
  | bits32 => 32
  | bits64 => 64

theorem WordSize.le_bits (size : WordSize) : 32 ≤ size.bits := by
  cases size <;> decide

/-- A NUL-terminated string, by the bytes before its end. -/
structure CString where
  bytes : List UInt8
  noNul : 0 ∉ bytes
  deriving DecidableEq

/-! ## The functions of the source -/

/-- A round of `GLIBC_dl_elf_hash`. -/
def elfHashRound {w : ℕ} (hash : BitVec w) (c : UInt8) : BitVec w :=
  let hash := (hash <<< 4) + c.toBitVec.setWidth w
  let hi := hash &&& 0xf0000000#w
  hash ^^^ (hi >>> 24)

/-- `GLIBC_dl_elf_hash`, which returns an `unsigned int`. -/
def dlElfHash (long : WordSize) (name : CString) : BitVec 32 :=
  let hash : BitVec long.bits := name.bytes.foldl elfHashRound 0
  (hash &&& 0x0fffffff#(long.bits)).setWidth 32

/-- A round of `GLIBC_dl_new_hash`. -/
def newHashRound {w : ℕ} (h : BitVec w) (c : UInt8) : BitVec w :=
  h * 33#w + c.toBitVec.setWidth w

/-- `GLIBC_dl_new_hash`. -/
def dlNewHash (fast : WordSize) (s : CString) : BitVec fast.bits :=
  let h : BitVec fast.bits := s.bytes.foldl newHashRound 5381#(fast.bits)
  h &&& 0xffffffff#(fast.bits)

/-! ## The hashes as they are defined -/

/-- A round of the hash of the System V ABI, on words of 32 bits. -/
def sysvRound (h : BitVec 32) (c : UInt8) : BitVec 32 :=
  let h := (h <<< 4) + c.toBitVec.setWidth 32
  let g := h &&& 0xf0000000#32
  let h := if g ≠ 0 then h ^^^ (g >>> 24) else h
  h &&& ~~~g

def sysvHash (name : CString) : BitVec 32 := name.bytes.foldl sysvRound 0

/-- A round of the hash of GNU. -/
def gnuRound (h : ℕ) (c : UInt8) : ℕ := (33 * h + c.toNat) % 2 ^ 32

def gnuHash (name : CString) : ℕ := name.bytes.foldl gnuRound 5381

/-! ## The hash on 28 bits -/

section Fold

/-- The bits 28 to 31 are added to the bits 4 to 7. -/
def foldHigh {w : ℕ} (n : BitVec w) : BitVec w := n ^^^ ((n &&& 0xf0000000#w) >>> 24)

def round28 (h : BitVec 28) (c : UInt8) : BitVec 28 :=
  (foldHigh ((h.setWidth 32 <<< 4) + c.toBitVec.setWidth 32)).setWidth 28

variable {w : ℕ}

theorem getLsbD_highNibble (w i : ℕ) :
    (0xf0000000#w).getLsbD i = (decide (i < w) && decide (28 ≤ i ∧ i < 32)) := by
  have hmask : (0xf0000000 : ℕ) = (2 ^ 4 - 1) <<< 28 := by decide
  rw [BitVec.getLsbD_ofNat, hmask, Nat.testBit_shiftLeft, Nat.testBit_two_pow_sub_one,
    ← Bool.decide_and]
  congr 2
  exact propext (by omega)

theorem getLsbD_foldHigh (n : BitVec w) (i : ℕ) :
    (foldHigh n).getLsbD i =
      (n.getLsbD i ^^ (n.getLsbD (24 + i) && decide (4 ≤ i ∧ i < 8))) := by
  have hrange : decide (28 ≤ 24 + i ∧ 24 + i < 32) = decide (4 ≤ i ∧ i < 8) :=
    decide_eq_decide.mpr (by omega)
  rw [foldHigh, BitVec.getLsbD_xor, BitVec.getLsbD_ushiftRight, BitVec.getLsbD_and,
    getLsbD_highNibble, hrange]
  by_cases hw : 24 + i < w
  · simp [hw]
  · simp [hw, BitVec.getLsbD_of_ge n (24 + i) (by omega)]

/-- What is above bit 31 does not come back. -/
theorem setWidth_foldHigh (n : BitVec w) :
    (foldHigh n).setWidth 28 = (foldHigh (n.setWidth 32)).setWidth 28 := by
  apply BitVec.eq_of_getLsbD_eq
  intro i hi
  simp only [BitVec.getLsbD_setWidth, getLsbD_foldHigh]
  by_cases hfolded : 4 ≤ i ∧ i < 8
  · have hlow : i < 32 := by omega
    have hhigh : 24 + i < 32 := by omega
    simp [hlow, hhigh]
  · have hlow : i < 32 := by omega
    simp [hlow, hfolded]

/-- Clearing the four bits that were folded leaves 28. -/
theorem foldHigh_and_not (n : BitVec 32) :
    foldHigh n &&& ~~~(n &&& 0xf0000000#32) = ((foldHigh n).setWidth 28).setWidth 32 := by
  apply BitVec.eq_of_getLsbD_eq
  intro i hi
  simp only [BitVec.getLsbD_setWidth, BitVec.getLsbD_and, BitVec.getLsbD_not, getLsbD_highNibble,
    getLsbD_foldHigh]
  by_cases hlow : i < 28
  · have hnot : ¬ 28 ≤ i := by omega
    simp [hi, hlow, hnot]
  · have hhigh : 28 ≤ i := by omega
    have hnot : ¬ i < 8 := by omega
    simp [hi, hlow, hhigh, hnot]

end Fold

/-! ## The rounds -/

theorem setWidth_elfHashRound {w : ℕ} (hw : 32 ≤ w) (hash : BitVec w) (c : UInt8) :
    (elfHashRound hash c).setWidth 28 = round28 (hash.setWidth 28) c := by
  have hsum : ((hash <<< 4) + c.toBitVec.setWidth w).setWidth 32 =
      ((hash.setWidth 28).setWidth 32 <<< 4) + c.toBitVec.setWidth 32 := by
    rw [BitVec.setWidth_add _ _ hw, BitVec.setWidth_shiftLeft_of_le hw]
    congr 1
    · -- four of the 32 bits are shifted out
      apply BitVec.eq_of_getLsbD_eq
      intro i hi
      simp only [BitVec.getLsbD_shiftLeft, BitVec.getLsbD_setWidth]
      have hlow : i - 4 < 28 := by omega
      have hlow' : i - 4 < 32 := by omega
      simp [hlow, hlow']
    · exact BitVec.setWidth_setWidth (by omega)
  show (foldHigh _).setWidth 28 = _
  rw [setWidth_foldHigh, hsum]
  rfl

theorem sysvRound_setWidth (h : BitVec 28) (c : UInt8) :
    sysvRound (h.setWidth 32) c = (round28 h c).setWidth 32 := by
  have hfold : ∀ n : BitVec 32, (if n &&& 0xf0000000#32 ≠ 0 then foldHigh n else n) =
      foldHigh n := by
    intro n
    split
    · rfl
    next hzero =>
      -- nothing to fold
      rw [foldHigh, not_not.mp hzero]
      exact (BitVec.xor_zero).symm
  rw [round28, ← foldHigh_and_not, ← hfold]
  rfl

/-- The source hashes on 28 bits, with something above them. -/
theorem dlElfHash_eq (long : WordSize) (name : CString) :
    dlElfHash long name = (name.bytes.foldl round28 0).setWidth 32 := by
  have hfold : name.bytes.foldl round28 ((0 : BitVec long.bits).setWidth 28) =
      (name.bytes.foldl elfHashRound (0 : BitVec long.bits)).setWidth 28 :=
    List.foldl_hom (BitVec.setWidth 28) fun hash c =>
      (setWidth_elfHashRound long.le_bits hash c).symm
  have hzero : (0 : BitVec long.bits).setWidth 28 = 0 := by
    cases long <;> rfl
  rw [hzero] at hfold
  rw [hfold, dlElfHash]
  apply BitVec.eq_of_getLsbD_eq
  intro i hi
  have hmask : (0x0fffffff : ℕ) = 2 ^ 28 - 1 := by decide
  have hwide : i < long.bits := hi.trans_le long.le_bits
  simp only [BitVec.getLsbD_setWidth, BitVec.getLsbD_and, BitVec.getLsbD_ofNat, hmask,
    Nat.testBit_two_pow_sub_one]
  simp [hi, hwide, Bool.and_comm]

/-- The reference hashes on 28 bits, with zeros above them. -/
theorem sysvHash_eq (name : CString) :
    sysvHash name = (name.bytes.foldl round28 0).setWidth 32 := by
  rw [← List.foldl_hom (BitVec.setWidth 32) sysvRound_setWidth]
  rfl

/-- A wider word keeps the remainder. -/
theorem gnuRound_mod {w : ℕ} (hw : 32 ≤ w) (h : BitVec w) (c : UInt8) :
    gnuRound (h.toNat % 2 ^ 32) c = (newHashRound h c).toNat % 2 ^ 32 := by
  have hdvd : 2 ^ 32 ∣ 2 ^ w := Nat.pow_dvd_pow 2 hw
  have hlarge : 2 ^ 32 ≤ 2 ^ w := Nat.pow_le_pow_right (by decide) hw
  have hc : (c.toBitVec.setWidth w).toNat = c.toNat := by
    rw [BitVec.toNat_setWidth]
    exact Nat.mod_eq_of_lt (c.toNat_lt.trans (by omega))
  have hfactor : (33#w).toNat = 33 := by
    rw [BitVec.toNat_ofNat]
    exact Nat.mod_eq_of_lt (by omega)
  rw [newHashRound, BitVec.toNat_add, Nat.mod_mod_of_dvd _ hdvd, Nat.add_mod, BitVec.toNat_mul,
    Nat.mod_mod_of_dvd _ hdvd, hc, hfactor, gnuRound]
  omega

theorem toNat_dlNewHash (fast : WordSize) (name : CString) :
    (dlNewHash fast name).toNat = gnuHash name := by
  have hfold : name.bytes.foldl gnuRound ((5381#(fast.bits)).toNat % 2 ^ 32) =
      (name.bytes.foldl newHashRound 5381#(fast.bits)).toNat % 2 ^ 32 :=
    List.foldl_hom (fun h : BitVec fast.bits => h.toNat % 2 ^ 32) (gnuRound_mod fast.le_bits)
  have hstart : (5381#(fast.bits)).toNat % 2 ^ 32 = 5381 := by
    cases fast <;> rfl
  have hmask : (0xffffffff#(fast.bits)).toNat = 2 ^ 32 - 1 := by
    cases fast <;> rfl
  rw [gnuHash, ← hstart, hfold, dlNewHash, BitVec.toNat_and, hmask, Nat.and_two_pow_sub_one_eq_mod]

theorem toNat_dlElfHash_lt (long : WordSize) (name : CString) :
    (dlElfHash long name).toNat < 2 ^ 28 := by
  rw [dlElfHash_eq, BitVec.toNat_setWidth]
  exact (Nat.mod_le _ _).trans_lt (BitVec.isLt _)

/-- **The hashes are the ones of the definitions**, whatever the widths of the types; and the
hash of System V is not the value that stands for no hash. -/
theorem symbolHashes_eq (long fast : WordSize) (name : CString) :
    dlElfHash long name = sysvHash name ∧ (dlNewHash fast name).toNat = gnuHash name ∧
      (dlElfHash long name).setWidth long.bits ≠ 0xffffffff#(long.bits) := by
  refine ⟨(dlElfHash_eq long name).trans (sysvHash_eq name).symm, toNat_dlNewHash fast name, ?_⟩
  intro hsentinel
  have hlt := toNat_dlElfHash_lt long name
  have hvalue := congrArg BitVec.toNat hsentinel
  have hmask : (0xffffffff#(long.bits)).toNat = 2 ^ 32 - 1 := by
    cases long <;> rfl
  rw [hmask, BitVec.toNat_setWidth] at hvalue
  have hle := Nat.mod_le (dlElfHash long name).toNat (2 ^ long.bits)
  omega

-- the two hashes of `printf`
example : sysvHash ⟨[112, 114, 105, 110, 116, 102], by decide⟩ = 0x077905a6#32 ∧
    gnuHash ⟨[112, 114, 105, 110, 116, 102], by decide⟩ = 0x156b2bb8 := by decide

end Memhook
