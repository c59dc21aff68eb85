import Mathlib.Algebra.Group.Nat.Defs
import Mathlib.Data.List.Basic
import Mathlib.Tactic.Tauto

/-!
# Bytes of numbers, and decoders

The first half is about numbers of a fixed width in memory: their bytes, the order
in which a machine stores them, and the swap that brings a number into network
order, which is the identity on a big-endian machine.  Written out after the swap,
a number has the same bytes on every machine.

The second half is about decoders, which take a value from the front of a byte list
and fail when the list is too short.  `Reads encode Fits decode` says that the
decoder inverts the encoder on the values that fit and accepts nothing else.  The
laws below it follow the ways decoders are put together: one field after the other,
a known number of bytes, and a known number of items.
-/

namespace Codec

/-! ## Bytes of a number -/

/-- The lowest `n` bytes of `v`, lowest first. -/
def bytesLE : ℕ → ℕ → List UInt8
  | 0, _ => []
  | n + 1, v => UInt8.ofNat v :: bytesLE n (v / 256)

def ofBytesLE : List UInt8 → ℕ
  | [] => 0
  | b :: bs => b.toNat + 256 * ofBytesLE bs

@[simp] theorem length_bytesLE (n v : ℕ) : (bytesLE n v).length = n := by
  induction n generalizing v with
  | zero => rfl
  | succ n ih => rw [bytesLE, List.length_cons, ih]

theorem ofBytesLE_lt (bs : List UInt8) : ofBytesLE bs < 256 ^ bs.length := by
  induction bs with
  | nil => simp [ofBytesLE]
  | cons b bs ih =>
      have hb : b.toNat < 256 := b.toNat_lt
      rw [ofBytesLE, List.length_cons, Nat.pow_succ]
      omega

theorem ofBytesLE_bytesLE {n v : ℕ} (h : v < 256 ^ n) : ofBytesLE (bytesLE n v) = v := by
  induction n generalizing v with
  | zero =>
      have hzero : v = 0 := by simpa using h
      rw [hzero]
      rfl
  | succ n ih =>
      have hdiv : v / 256 < 256 ^ n := by
        rw [Nat.pow_succ] at h
        exact Nat.div_lt_of_lt_mul (by rwa [Nat.mul_comm])
      have hlow : (UInt8.ofNat v).toNat = v % 256 := UInt8.toNat_ofNat'
      rw [bytesLE, ofBytesLE, ih hdiv, hlow]
      omega

theorem bytesLE_ofBytesLE (bs : List UInt8) : bytesLE bs.length (ofBytesLE bs) = bs := by
  induction bs with
  | nil => rfl
  | cons b bs ih =>
      have hb : b.toNat < 256 := b.toNat_lt
      have hhead : UInt8.ofNat (b.toNat + 256 * ofBytesLE bs) = b := by
        apply UInt8.toNat_inj.mp
        rw [UInt8.toNat_ofNat']
        omega
      have htail : (b.toNat + 256 * ofBytesLE bs) / 256 = ofBytesLE bs := by omega
      rw [List.length_cons, ofBytesLE, bytesLE, hhead, htail, ih]

/-! ## Memory and network order -/

/-- The bytes of a number in the memory of a big-endian or little-endian machine. -/
def store (bigEndian : Bool) (n v : ℕ) : List UInt8 :=
  if bigEndian then (bytesLE n v).reverse else bytesLE n v

/-- The number some bytes in memory stand for. -/
def load (bigEndian : Bool) (bs : List UInt8) : ℕ :=
  ofBytesLE (if bigEndian then bs.reverse else bs)

/-- The number with its `n` bytes in the opposite order. -/
def bswap (n v : ℕ) : ℕ := ofBytesLE (bytesLE n v).reverse

/-- What a machine has to store so that the bytes are in network order, and what it has
to make of a number it loaded. -/
def network (bigEndian : Bool) (n v : ℕ) : ℕ := if bigEndian then v else bswap n v

/-- The bytes of a number in network order. -/
def bytesBE (n v : ℕ) : List UInt8 := (bytesLE n v).reverse

def ofBytesBE (bs : List UInt8) : ℕ := ofBytesLE bs.reverse

@[simp] theorem length_bytesBE (n v : ℕ) : (bytesBE n v).length = n := by
  simp [bytesBE]

theorem ofBytesBE_bytesBE {n v : ℕ} (h : v < 256 ^ n) : ofBytesBE (bytesBE n v) = v := by
  rw [ofBytesBE, bytesBE, List.reverse_reverse, ofBytesLE_bytesLE h]

theorem bytesBE_ofBytesBE (bs : List UInt8) : bytesBE bs.length (ofBytesBE bs) = bs := by
  have h := bytesLE_ofBytesLE bs.reverse
  rw [List.length_reverse] at h
  rw [ofBytesBE, bytesBE, h, List.reverse_reverse]

theorem bswap_lt (n v : ℕ) : bswap n v < 256 ^ n := by
  simpa [bswap] using ofBytesLE_lt (bytesLE n v).reverse

theorem load_lt (bigEndian : Bool) (bs : List UInt8) : load bigEndian bs < 256 ^ bs.length := by
  cases bigEndian with
  | true => simpa [load] using ofBytesLE_lt bs.reverse
  | false => exact ofBytesLE_lt bs

/-- Brought into network order and stored, a number has the same bytes on every machine. -/
theorem store_network (bigEndian : Bool) (n v : ℕ) :
    store bigEndian n (network bigEndian n v) = bytesBE n v := by
  cases bigEndian with
  | true => rfl
  | false =>
      have h := bytesLE_ofBytesLE (bytesLE n v).reverse
      rw [List.length_reverse, length_bytesLE] at h
      exact h

/-- Loaded and brought back from network order, the bytes mean the same on every
machine. -/
theorem network_load (bigEndian : Bool) (bs : List UInt8) :
    network bigEndian bs.length (load bigEndian bs) = ofBytesBE bs := by
  cases bigEndian with
  | true => rfl
  | false =>
      show ofBytesLE (bytesLE bs.length (ofBytesLE bs)).reverse = ofBytesLE bs.reverse
      rw [bytesLE_ofBytesLE]

/-! ## Decoders -/

/-- Takes a value from the front of the bytes. -/
abbrev Decoder := StateT (List UInt8) Option

variable {α β : Type}

/-- The decoder inverts the encoder on the values that fit, and accepts nothing else. -/
structure Reads (encode : α → List UInt8) (Fits : α → Prop) (decode : Decoder α) : Prop where
  encoded : ∀ a, Fits a → ∀ rest, decode.run (encode a ++ rest) = some (a, rest)
  canonical : ∀ bytes a rest, decode.run bytes = some (a, rest) → Fits a ∧ bytes = encode a ++ rest

/-- The next `n` bytes. -/
def take (n : ℕ) : Decoder (List UInt8) :=
  fun bytes => if bytes.length < n then none else some (bytes.take n, bytes.drop n)

/-- `n` items. -/
def many (decode : Decoder α) : ℕ → Decoder (List α)
  | 0 => pure []
  | n + 1 => do
      let item ← decode
      let items ← many decode n
      pure (item :: items)

namespace Reads

theorem take (n : ℕ) : Reads id (fun bytes => bytes.length = n) (take n) := by
  refine ⟨?_, ?_⟩
  · intro bytes hlength rest
    subst hlength
    simp [Codec.take, StateT.run]
  · intro bytes taken rest h
    simp only [Codec.take, StateT.run] at h
    split at h
    · cases h
    · next hlength =>
        obtain ⟨rfl, rfl⟩ : bytes.take n = taken ∧ bytes.drop n = rest := by simpa using h
        exact ⟨by rw [List.length_take]; omega, (List.take_append_drop n bytes).symm⟩

theorem pure (a : α) : Reads (fun _ => []) (· = a) (pure a : Decoder α) := by
  refine ⟨?_, ?_⟩
  · intro b hb rest
    subst hb
    rfl
  · intro bytes b rest h
    obtain ⟨rfl, rfl⟩ : a = b ∧ bytes = rest := by simpa using h
    exact ⟨rfl, rfl⟩

/-- A first field, and then the rest of the value given that field. -/
theorem bind {encode : α → List UInt8} {Fits : α → Prop} {decode : Decoder α}
    (h : Reads encode Fits decode) (field : β → α) {encodeRest : β → List UInt8}
    {FitsRest : α → β → Prop} {decodeRest : α → Decoder β}
    (hfield : ∀ a b, Fits a → FitsRest a b → field b = a)
    (hrest : ∀ a, Reads encodeRest (FitsRest a) (decodeRest a)) :
    Reads (fun b => encode (field b) ++ encodeRest b)
      (fun b => Fits (field b) ∧ FitsRest (field b) b) (decode >>= decodeRest) := by
  refine ⟨?_, ?_⟩
  · intro b hb rest
    have hfirst := h.encoded (field b) hb.1 (encodeRest b ++ rest)
    have hsecond := (hrest (field b)).encoded b hb.2 rest
    simp [List.append_assoc, hfirst, hsecond]
  · intro bytes b rest hrun
    rw [StateT.run_bind] at hrun
    obtain ⟨⟨a, middle⟩, hfirst, hsecond⟩ := Option.bind_eq_some_iff.mp hrun
    obtain ⟨hfits, hbytes⟩ := h.canonical bytes a middle hfirst
    obtain ⟨hfitsRest, hmiddle⟩ := (hrest a).canonical middle b rest hsecond
    obtain rfl := hfield a b hfits hfitsRest
    exact ⟨⟨hfits, hfitsRest⟩, by rw [hbytes, hmiddle, List.append_assoc]⟩

/-- The same decoder, encoder and values in another form. -/
theorem congr {encode encode' : α → List UInt8} {Fits Fits' : α → Prop} {decode : Decoder α}
    (h : Reads encode Fits decode) (hencode : ∀ a, encode' a = encode a)
    (hfits : ∀ a, Fits' a ↔ Fits a) : Reads encode' Fits' decode := by
  obtain rfl : encode' = encode := funext hencode
  obtain rfl : Fits' = Fits := funext fun a => propext (hfits a)
  exact h

/-- A decoder followed by a conversion of what it read. -/
theorem map {encode : α → List UInt8} {Fits : α → Prop} {decode : Decoder α}
    (h : Reads encode Fits decode) {f : α → β} {g : β → α} (hfg : ∀ b, f (g b) = b)
    (hgf : ∀ a, Fits a → g (f a) = a) :
    Reads (fun b => encode (g b)) (fun b => Fits (g b)) (do return f (← decode)) := by
  have hbind : Reads (fun b => encode (g b) ++ []) (fun b => Fits (g b) ∧ b = f (g b))
      (decode >>= fun a => Pure.pure (f a)) :=
    h.bind g (fun a b hfits hb => by rw [hb, hgf a hfits]) fun a => Reads.pure (f a)
  exact hbind.congr (fun b => (List.append_nil _).symm)
    fun b => ⟨fun hfits => ⟨hfits, (hfg b).symm⟩, And.left⟩

/-- A field of a structure.  `Known` is what the fields before it have fixed. -/
theorem field {encode : α → List UInt8} {Fits : α → Prop} {decode : Decoder α}
    (h : Reads encode Fits decode) {field : β → α} {encodeRest : β → List UInt8}
    {Known FitsRest : β → Prop} {decodeRest : α → Decoder β}
    (hrest : ∀ a, Reads encodeRest (fun b => (Known b ∧ field b = a) ∧ FitsRest b) (decodeRest a)) :
    Reads (fun b => encode (field b) ++ encodeRest b)
      (fun b => Known b ∧ Fits (field b) ∧ FitsRest b) (decode >>= decodeRest) := by
  refine (h.bind field (fun a b _ hb => hb.1.2) hrest).congr (fun _ => rfl) ?_
  intro b
  tauto

/-- All fields of a structure are known. -/
theorem fields {Known : α → Prop} {a : α} (h : ∀ b, Known b ↔ b = a) :
    Reads (fun _ => []) (fun b => Known b ∧ True) (Pure.pure a : Decoder α) :=
  (Reads.pure a).congr (fun _ => rfl) fun b => by rw [h, and_true]

theorem many {encode : α → List UInt8} {Fits : α → Prop} {decode : Decoder α}
    (h : Reads encode Fits decode) (n : ℕ) :
    Reads (fun items => items.flatMap encode)
      (fun items => items.length = n ∧ ∀ item ∈ items, Fits item) (many decode n) := by
  induction n with
  | zero =>
      refine ⟨?_, ?_⟩
      · intro items hitems rest
        obtain rfl : items = [] := List.length_eq_zero_iff.mp hitems.1
        rfl
      · intro bytes items rest hrun
        obtain ⟨rfl, rfl⟩ : [] = items ∧ bytes = rest := by simpa [Codec.many] using hrun
        simp
  | succ n ih =>
      refine ⟨?_, ?_⟩
      · intro items hitems rest
        obtain ⟨hlength, hfits⟩ := hitems
        cases items with
        | nil => simp at hlength
        | cons item items =>
            have hhead := h.encoded item (hfits item (List.mem_cons_self ..))
              (items.flatMap encode ++ rest)
            have htail := ih.encoded items
              ⟨by simpa using hlength, fun other hother => hfits other (by simp [hother])⟩ rest
            simp [Codec.many, List.append_assoc, hhead, htail]
      · intro bytes items rest hrun
        rw [Codec.many, StateT.run_bind] at hrun
        obtain ⟨⟨item, middle⟩, hhead, htail⟩ := Option.bind_eq_some_iff.mp hrun
        rw [StateT.run_bind] at htail
        obtain ⟨⟨tail, last⟩, hmany, hpure⟩ := Option.bind_eq_some_iff.mp htail
        obtain ⟨rfl, rfl⟩ : item :: tail = items ∧ last = rest := by simpa using hpure
        obtain ⟨hfits, hbytes⟩ := h.canonical bytes item middle hhead
        obtain ⟨⟨hlength, hfitsTail⟩, hmiddle⟩ := ih.canonical middle tail last hmany
        refine ⟨⟨by simp [hlength], ?_⟩, by simp [hbytes, hmiddle]⟩
        intro other hother
        rcases List.mem_cons.mp hother with rfl | hother
        · exact hfits
        · exact hfitsTail other hother

end Reads

end Codec
