import Memhook.Lib.Codec
import Memhook.TraceInfo

/-!
# The wire format

The messages of `include/memhook/network.h` and their serialization in
`include/memhook/serialization.h` and `byteswap.h`, on a 64-bit build whose byte
order is the parameter `bigEndian`.

The source traverses a message three times: `SizeOf` adds up its size,
`BufferWriter` fills a buffer of that size and `BufferReader` reads it back.  The
first two are visitors of one traversal, `Writer`.  `Writer.Appends` says that a
visitor acts by the bytes of the abstract format `encode`, so what holds of these
bytes holds of both; the reader is compared with `encode` by the laws of
`Codec.Reads`.

A buffer of the source has a start and a size, and copying into it or advancing it
stops at its end.  Reading past the end is not stopped: here it is failure.
-/

namespace Memhook

open Codec

/-! ## Messages -/

/-- `NetReqType`.  The enumeration has the width of its largest value, and a message
may carry any value of that width. -/
abbrev NetReqType := UInt32

def kNetReqAdd : NetReqType := 0xfd1a73e7
def kNetReqRemove : NetReqType := 0x68801d30
def kNetReqUpdateSize : NetReqType := 0x23ac73f5
def kNetReqClear : NetReqType := 0xe5b1f106
def kNetReqNewStorage : NetReqType := 0x8f3948da

/-- The header of a frame: the size of its body. -/
structure NetProtoOutbound where
  size : UInt64
  deriving DecidableEq, Repr

structure NetRequest where
  type : NetReqType
  traceinfo : TraceInfoBase
  callstack : CallStackInfo
  deriving DecidableEq, Repr

/-! ## Byte order -/

def hton32 (bigEndian : Bool) (val : UInt32) : UInt32 :=
  if bigEndian then val else UInt32.ofNat (bswap 4 val.toNat)

def ntoh32 (bigEndian : Bool) (val : UInt32) : UInt32 :=
  if bigEndian then val else UInt32.ofNat (bswap 4 val.toNat)

def hton64 (bigEndian : Bool) (val : UInt64) : UInt64 :=
  if bigEndian then val else UInt64.ofNat (bswap 8 val.toNat)

def ntoh64 (bigEndian : Bool) (val : UInt64) : UInt64 :=
  if bigEndian then val else UInt64.ofNat (bswap 8 val.toNat)

/-! ## Writing -/

/-- The three `Call`s that a visitor derived from `WriterImpl` has. -/
structure Writer (σ : Type) where
  call32 : UInt32 → σ → σ
  call64 : UInt64 → σ → σ
  callString : Bytes → σ → σ

namespace Writer

variable {σ : Type} (writer : Writer σ)

/-- An enumerator is written as an `int32_t`. -/
def enumerator (val : NetReqType) : σ → σ := writer.call32 val

def timePoint (val : TimePoint) : σ → σ := writer.call64 val.toUInt64

/-- `WriterImpl::CallSeq`: the number of items as a `uint32_t`, and all the items. -/
def callSeq {α : Type} (callObj : α → σ → σ) (seq : List α) (state : σ) : σ :=
  seq.foldl (fun state item => callObj item state)
    (writer.call32 (UInt32.ofNat seq.length) state)

def callStackInfoItem (item : CallStackInfoItem) (state : σ) : σ :=
  let state := writer.callString item.shlPath state
  let state := writer.callString item.procname state
  let state := writer.call64 item.shlAddr state
  let state := writer.call64 item.ip state
  let state := writer.call64 item.sp state
  writer.call64 item.offp state

def traceInfoBase (traceinfo : TraceInfoBase) (state : σ) : σ :=
  let state := writer.call64 traceinfo.address state
  let state := writer.call64 traceinfo.memsize state
  writer.timePoint traceinfo.timestamp state

def netRequest (request : NetRequest) (state : σ) : σ :=
  let state := writer.enumerator request.type state
  let state := writer.traceInfoBase request.traceinfo state
  writer.callSeq writer.callStackInfoItem request.callstack state

def netProtoOutbound (outbound : NetProtoOutbound) : σ → σ := writer.call64 outbound.size

end Writer

/-- `SizeOf`. -/
def sizeOfWriter : Writer ℕ where
  call32 _ size := size + 4
  call64 _ size := size + 8
  callString val size := size + 4 + (UInt32.ofNat val.length).toNat

/-- A `mutable_buffer`: what has been written and how many bytes are left. -/
structure MutableBuffer where
  written : Bytes
  room : ℕ
  deriving DecidableEq, Repr

/-- `buffer_copy` to the buffer and `operator+` after it. -/
def MutableBuffer.copy (data : Bytes) (buf : MutableBuffer) : MutableBuffer :=
  ⟨buf.written ++ data.take buf.room, buf.room - data.length⟩

/-- `BufferWriter`. -/
def bufferWriter (bigEndian : Bool) : Writer MutableBuffer where
  call32 val := MutableBuffer.copy (store bigEndian 4 (hton32 bigEndian val).toNat)
  call64 val := MutableBuffer.copy (store bigEndian 8 (hton64 bigEndian val).toNat)
  callString val buf :=
    let size := UInt32.ofNat val.length
    let buf := buf.copy (store bigEndian 4 (hton32 bigEndian size).toNat)
    if size ≠ 0 then buf.copy (val.take size.toNat) else buf

/-! ## Reading -/

namespace BufferReader

variable (bigEndian : Bool)

def call32 : Decoder UInt32 := do
  let bytes ← take 4
  return ntoh32 bigEndian (UInt32.ofNat (load bigEndian bytes))

def call64 : Decoder UInt64 := do
  let bytes ← take 8
  return ntoh64 bigEndian (UInt64.ofNat (load bigEndian bytes))

def callString : Decoder Bytes := do
  let size ← call32 bigEndian
  take size.toNat

/-- An enumerator is read as the unsigned number of its own width. -/
def enumerator : Decoder NetReqType := call32 bigEndian

def timePoint : Decoder TimePoint := do
  let rep ← call64 bigEndian
  return rep.toInt64

/-- `ReaderImpl::CallSeq`. -/
def callSeq {α : Type} (callObj : Decoder α) : Decoder (List α) := do
  let size ← call32 bigEndian
  many callObj size.toNat

def callStackInfoItem : Decoder CallStackInfoItem := do
  let shlPath ← callString bigEndian
  let procname ← callString bigEndian
  let shlAddr ← call64 bigEndian
  let ip ← call64 bigEndian
  let sp ← call64 bigEndian
  let offp ← call64 bigEndian
  return ⟨shlPath, procname, shlAddr, ip, sp, offp⟩

def traceInfoBase : Decoder TraceInfoBase := do
  let address ← call64 bigEndian
  let memsize ← call64 bigEndian
  let timestamp ← timePoint bigEndian
  return ⟨address, memsize, timestamp⟩

def netRequest : Decoder NetRequest := do
  let type ← enumerator bigEndian
  let traceinfo ← traceInfoBase bigEndian
  let callstack ← callSeq bigEndian (callStackInfoItem bigEndian)
  return ⟨type, traceinfo, callstack⟩

def netProtoOutbound : Decoder NetProtoOutbound := do
  let size ← call64 bigEndian
  return ⟨size⟩

end BufferReader

/-! ## The entry points -/

/-- The structures that are adapted as sequences of their fields. -/
class Serializable (α : Type) where
  forEachWrite : {σ : Type} → Writer σ → α → σ → σ
  forEachRead : Bool → Decoder α

instance : Serializable NetRequest where
  forEachWrite := Writer.netRequest
  forEachRead := BufferReader.netRequest

instance : Serializable NetProtoOutbound where
  forEachWrite := Writer.netProtoOutbound
  forEachRead := BufferReader.netProtoOutbound

section EntryPoints

variable {α : Type} [Serializable α]

def getSize (val : α) : ℕ := Serializable.forEachWrite sizeOfWriter val 0

def write (bigEndian : Bool) (buf : MutableBuffer) (val : α) : MutableBuffer :=
  Serializable.forEachWrite (bufferWriter bigEndian) val buf

def read (bigEndian : Bool) (buf : Bytes) : Option (α × Bytes) :=
  (Serializable.forEachRead bigEndian : Decoder α).run buf

end EntryPoints

/-! ## The abstract format -/

def encode32 (val : UInt32) : Bytes := bytesBE 4 val.toNat

def encode64 (val : UInt64) : Bytes := bytesBE 8 val.toNat

def encodeString (val : Bytes) : Bytes := encode32 (UInt32.ofNat val.length) ++ val

/-- Lengths travel as `uint32_t`. -/
def CallStackInfoItem.Fits (item : CallStackInfoItem) : Prop :=
  item.shlPath.length < 2 ^ 32 ∧ item.procname.length < 2 ^ 32

def NetRequest.Fits (request : NetRequest) : Prop :=
  request.callstack.length < 2 ^ 32 ∧ ∀ item ∈ request.callstack, item.Fits

def CallStackInfoItem.encode (item : CallStackInfoItem) : Bytes :=
  encodeString item.shlPath ++ (encodeString item.procname ++ (encode64 item.shlAddr ++
    (encode64 item.ip ++ (encode64 item.sp ++ encode64 item.offp))))

def TraceInfoBase.encode (traceinfo : TraceInfoBase) : Bytes :=
  encode64 traceinfo.address ++ (encode64 traceinfo.memsize ++
    encode64 traceinfo.timestamp.toUInt64)

def NetRequest.encode (request : NetRequest) : Bytes :=
  encode32 request.type ++ (request.traceinfo.encode ++
    (encode32 (UInt32.ofNat request.callstack.length) ++
      request.callstack.flatMap CallStackInfoItem.encode))

def NetProtoOutbound.encode (outbound : NetProtoOutbound) : Bytes := encode64 outbound.size

/-! ## Writers act by the encoding -/

/-- The visitor takes each value as the bytes of its encoding. -/
structure Writer.Appends {σ : Type} (writer : Writer σ) (put : Bytes → σ → σ) : Prop where
  nil : ∀ state, put [] state = state
  append : ∀ front back state, put (front ++ back) state = put back (put front state)
  call32 : ∀ val state, writer.call32 val state = put (encode32 val) state
  call64 : ∀ val state, writer.call64 val state = put (encode64 val) state
  callString : ∀ val state, val.length < 2 ^ 32 →
    writer.callString val state = put (encodeString val) state

theorem toNat_ofNat_length {α : Type} {seq : List α} (h : seq.length < 2 ^ 32) :
    (UInt32.ofNat seq.length).toNat = seq.length :=
  UInt32.toNat_ofNat_of_lt' h

namespace Writer.Appends

variable {σ : Type} {writer : Writer σ} {put : Bytes → σ → σ} (h : writer.Appends put)
include h

theorem callStackInfoItem {item : CallStackInfoItem} (hitem : item.Fits) (state : σ) :
    writer.callStackInfoItem item state = put item.encode state := by
  simp only [Writer.callStackInfoItem, CallStackInfoItem.encode, h.call64,
    h.callString _ _ hitem.1, h.callString _ _ hitem.2, h.append]

theorem foldl_callStackInfoItem {callstack : CallStackInfo}
    (hitems : ∀ item ∈ callstack, item.Fits) (state : σ) :
    callstack.foldl (fun state item => writer.callStackInfoItem item state) state =
      put (callstack.flatMap CallStackInfoItem.encode) state := by
  induction callstack generalizing state with
  | nil => exact (h.nil state).symm
  | cons item rest ih =>
      rw [List.foldl_cons, h.callStackInfoItem (hitems item (List.mem_cons_self ..)),
        ih fun other hother => hitems other (List.mem_cons_of_mem _ hother), List.flatMap_cons,
        h.append]

theorem netRequest {request : NetRequest} (hrequest : request.Fits) (state : σ) :
    writer.netRequest request state = put request.encode state := by
  simp only [Writer.netRequest, Writer.enumerator, Writer.traceInfoBase, Writer.timePoint,
    Writer.callSeq, NetRequest.encode, TraceInfoBase.encode, h.call32, h.call64, h.append,
    h.foldl_callStackInfoItem hrequest.2]

theorem netProtoOutbound (outbound : NetProtoOutbound) (state : σ) :
    writer.netProtoOutbound outbound state = put outbound.encode state :=
  h.call64 outbound.size state

end Writer.Appends

theorem appends_sizeOfWriter : sizeOfWriter.Appends fun bytes size => size + bytes.length where
  nil _ := rfl
  append front back size := by
    rw [List.length_append, Nat.add_assoc]
  call32 val size := by simp [sizeOfWriter, encode32]
  call64 val size := by simp [sizeOfWriter, encode64]
  callString val size hval := by
    rw [encodeString, List.length_append, encode32, length_bytesBE, ← Nat.add_assoc]
    show size + 4 + _ = _
    rw [toNat_ofNat_length hval]

theorem toNat_hton32 (bigEndian : Bool) (val : UInt32) :
    (hton32 bigEndian val).toNat = network bigEndian 4 val.toNat := by
  cases bigEndian with
  | true => rfl
  | false => exact UInt32.toNat_ofNat_of_lt' (bswap_lt 4 val.toNat)

theorem toNat_hton64 (bigEndian : Bool) (val : UInt64) :
    (hton64 bigEndian val).toNat = network bigEndian 8 val.toNat := by
  cases bigEndian with
  | true => rfl
  | false => exact UInt64.toNat_ofNat_of_lt' (bswap_lt 8 val.toNat)

/-- Swapped or not, a number is stored in network order. -/
theorem store_hton32 (bigEndian : Bool) (val : UInt32) :
    store bigEndian 4 (hton32 bigEndian val).toNat = encode32 val := by
  rw [toNat_hton32]
  exact store_network bigEndian 4 val.toNat

theorem store_hton64 (bigEndian : Bool) (val : UInt64) :
    store bigEndian 8 (hton64 bigEndian val).toNat = encode64 val := by
  rw [toNat_hton64]
  exact store_network bigEndian 8 val.toNat

theorem MutableBuffer.copy_append (front back : Bytes) (buf : MutableBuffer) :
    buf.copy (front ++ back) = (buf.copy front).copy back := by
  simp only [copy, List.take_append, List.length_append, List.append_assoc]
  congr 1
  omega

theorem appends_bufferWriter (bigEndian : Bool) :
    (bufferWriter bigEndian).Appends MutableBuffer.copy where
  nil buf := by simp [MutableBuffer.copy]
  append := MutableBuffer.copy_append
  call32 val buf := by simp only [bufferWriter, store_hton32]
  call64 val buf := by simp only [bufferWriter, store_hton64]
  callString val buf hval := by
    simp only [bufferWriter, store_hton32, encodeString, MutableBuffer.copy_append,
      toNat_ofNat_length hval, List.take_length]
    split
    · rfl
    · -- of an empty string only the length is written
      next hzero =>
        have hempty : val = [] := by
          have hsize := congrArg UInt32.toNat (not_not.mp hzero)
          rw [toNat_ofNat_length hval] at hsize
          exact List.length_eq_zero_iff.mp hsize
        simp [hempty, MutableBuffer.copy]

/-! ## Readers invert the encoding -/

theorem toNat_ntoh32_load (bigEndian : Bool) {bytes : Bytes} (hlength : bytes.length = 4) :
    (ntoh32 bigEndian (UInt32.ofNat (load bigEndian bytes))).toNat = ofBytesBE bytes := by
  have hload : load bigEndian bytes < 2 ^ 32 := by
    simpa [hlength] using load_lt bigEndian bytes
  calc (ntoh32 bigEndian (UInt32.ofNat (load bigEndian bytes))).toNat
      = network bigEndian 4 (UInt32.ofNat (load bigEndian bytes)).toNat :=
        toNat_hton32 bigEndian _
    _ = network bigEndian bytes.length (load bigEndian bytes) := by
        rw [UInt32.toNat_ofNat_of_lt' hload, hlength]
    _ = ofBytesBE bytes := network_load bigEndian bytes

theorem toNat_ntoh64_load (bigEndian : Bool) {bytes : Bytes} (hlength : bytes.length = 8) :
    (ntoh64 bigEndian (UInt64.ofNat (load bigEndian bytes))).toNat = ofBytesBE bytes := by
  have hload : load bigEndian bytes < 2 ^ 64 := by
    simpa [hlength] using load_lt bigEndian bytes
  calc (ntoh64 bigEndian (UInt64.ofNat (load bigEndian bytes))).toNat
      = network bigEndian 8 (UInt64.ofNat (load bigEndian bytes)).toNat :=
        toNat_hton64 bigEndian _
    _ = network bigEndian bytes.length (load bigEndian bytes) := by
        rw [UInt64.toNat_ofNat_of_lt' hload, hlength]
    _ = ofBytesBE bytes := network_load bigEndian bytes

@[simp] theorem length_encode32 (val : UInt32) : (encode32 val).length = 4 := length_bytesBE 4 _

@[simp] theorem length_encode64 (val : UInt64) : (encode64 val).length = 8 := length_bytesBE 8 _

namespace BufferReader

variable (bigEndian : Bool)

theorem reads_call32 : Reads encode32 (fun _ => True) (call32 bigEndian) := by
  refine ((Reads.take 4).map (g := encode32) (fun val => ?_) fun bytes hlength => ?_).congr
    (fun _ => rfl) fun val => by simp
  · apply UInt32.toNat_inj.mp
    rw [toNat_ntoh32_load bigEndian (length_encode32 val)]
    exact ofBytesBE_bytesBE val.toNat_lt
  · rw [encode32, toNat_ntoh32_load bigEndian hlength, ← hlength]
    exact bytesBE_ofBytesBE bytes

theorem reads_call64 : Reads encode64 (fun _ => True) (call64 bigEndian) := by
  refine ((Reads.take 8).map (g := encode64) (fun val => ?_) fun bytes hlength => ?_).congr
    (fun _ => rfl) fun val => by simp
  · apply UInt64.toNat_inj.mp
    rw [toNat_ntoh64_load bigEndian (length_encode64 val)]
    exact ofBytesBE_bytesBE val.toNat_lt
  · rw [encode64, toNat_ntoh64_load bigEndian hlength, ← hlength]
    exact bytesBE_ofBytesBE bytes

theorem ofNat_length {α : Type} {seq : List α} {size : UInt32} (h : seq.length = size.toNat) :
    UInt32.ofNat seq.length = size := by
  rw [h, UInt32.ofNat_toNat]

/-- A length fits if and only if it survives the conversion to `uint32_t`. -/
theorem length_lt_iff {α : Type} (seq : List α) :
    seq.length < 2 ^ 32 ↔ seq.length = (UInt32.ofNat seq.length).toNat := by
  refine ⟨fun h => (toNat_ofNat_length h).symm, ?_⟩
  intro h
  rw [h]
  exact UInt32.toNat_lt _

theorem reads_callString :
    Reads encodeString (fun val => val.length < 2 ^ 32) (callString bigEndian) := by
  refine ((reads_call32 bigEndian).bind (fun val : Bytes => UInt32.ofNat val.length) ?_
    fun size => Reads.take size.toNat).congr (fun _ => rfl) fun val => ?_
  · intro size val _ hlength
    exact ofNat_length hlength
  · rw [length_lt_iff]
    simp

theorem reads_timePoint :
    Reads (fun val : TimePoint => encode64 val.toUInt64) (fun _ => True) (timePoint bigEndian) :=
  (reads_call64 bigEndian).map (fun val => Int64.toInt64_toUInt64 val)
    fun rep _ => UInt64.toUInt64_toInt64 rep

theorem reads_callSeq {α : Type} {encode : α → Bytes} {Fits : α → Prop} {callObj : Decoder α}
    (h : Reads encode Fits callObj) :
    Reads (fun seq => encode32 (UInt32.ofNat seq.length) ++ seq.flatMap encode)
      (fun seq => seq.length < 2 ^ 32 ∧ ∀ item ∈ seq, Fits item) (callSeq bigEndian callObj) := by
  refine ((reads_call32 bigEndian).bind (fun seq : List α => UInt32.ofNat seq.length) ?_
    fun size => h.many size.toNat).congr (fun _ => rfl) fun seq => ?_
  · intro size seq _ hseq
    exact ofNat_length hseq.1
  · rw [length_lt_iff]
    simp

theorem reads_callStackInfoItem :
    Reads CallStackInfoItem.encode CallStackInfoItem.Fits (callStackInfoItem bigEndian) := by
  have hfields : Reads
      (fun item : CallStackInfoItem => encodeString item.shlPath ++ (encodeString item.procname ++
        (encode64 item.shlAddr ++ (encode64 item.ip ++ (encode64 item.sp ++
          (encode64 item.offp ++ []))))))
      (fun item => True ∧ item.shlPath.length < 2 ^ 32 ∧ item.procname.length < 2 ^ 32 ∧
        True ∧ True ∧ True ∧ True ∧ True)
      (callStackInfoItem bigEndian) := by
    refine (reads_callString bigEndian).field ?_
    intro shlPath
    refine (reads_callString bigEndian).field ?_
    intro procname
    refine (reads_call64 bigEndian).field ?_
    intro shlAddr
    refine (reads_call64 bigEndian).field ?_
    intro ip
    refine (reads_call64 bigEndian).field ?_
    intro sp
    refine (reads_call64 bigEndian).field ?_
    intro offp
    refine Reads.fields ?_
    intro item
    cases item
    simp [and_assoc]
  refine hfields.congr ?_ ?_
  · intro item
    simp [CallStackInfoItem.encode]
  · intro item
    simp [CallStackInfoItem.Fits]

theorem reads_traceInfoBase :
    Reads TraceInfoBase.encode (fun _ => True) (traceInfoBase bigEndian) := by
  have hfields : Reads
      (fun info : TraceInfoBase => encode64 info.address ++ (encode64 info.memsize ++
        (encode64 info.timestamp.toUInt64 ++ [])))
      (fun _ => True ∧ True ∧ True ∧ True ∧ True) (traceInfoBase bigEndian) := by
    refine (reads_call64 bigEndian).field ?_
    intro address
    refine (reads_call64 bigEndian).field ?_
    intro memsize
    refine (reads_timePoint bigEndian).field ?_
    intro timestamp
    refine Reads.fields ?_
    intro info
    cases info
    simp [and_assoc]
  refine hfields.congr ?_ ?_
  · intro info
    simp [TraceInfoBase.encode]
  · intro info
    simp

theorem reads_netRequest :
    Reads NetRequest.encode NetRequest.Fits (netRequest bigEndian) := by
  have hfields : Reads
      (fun request : NetRequest => encode32 request.type ++ (request.traceinfo.encode ++
        ((encode32 (UInt32.ofNat request.callstack.length) ++
          request.callstack.flatMap CallStackInfoItem.encode) ++ [])))
      (fun request => True ∧ True ∧ True ∧
        (request.callstack.length < 2 ^ 32 ∧ ∀ item ∈ request.callstack, item.Fits) ∧ True)
      (netRequest bigEndian) := by
    refine (reads_call32 bigEndian).field ?_
    intro type
    refine (reads_traceInfoBase bigEndian).field ?_
    intro traceinfo
    refine (reads_callSeq bigEndian (reads_callStackInfoItem bigEndian)).field ?_
    intro callstack
    refine Reads.fields ?_
    intro request
    cases request
    simp [and_assoc]
  refine hfields.congr ?_ ?_
  · intro request
    simp [NetRequest.encode]
  · intro request
    simp [NetRequest.Fits]

theorem reads_netProtoOutbound :
    Reads NetProtoOutbound.encode (fun _ => True) (netProtoOutbound bigEndian) :=
  (reads_call64 bigEndian).map (fun _ => rfl) fun _ _ => rfl

end BufferReader

/-! ## Messages go around -/

/-- A message with its abstract format. -/
class WireFormat (α : Type) [Serializable α] where
  encode : α → Bytes
  Fits : α → Prop
  encode_ne_nil : ∀ val, encode val ≠ []
  writes : ∀ {σ : Type} {writer : Writer σ} {put : Bytes → σ → σ}, writer.Appends put →
    ∀ val, Fits val → ∀ state, Serializable.forEachWrite writer val state = put (encode val) state
  reads : ∀ bigEndian, Reads encode Fits (Serializable.forEachRead bigEndian)

instance : WireFormat NetRequest where
  encode := NetRequest.encode
  Fits := NetRequest.Fits
  encode_ne_nil request h := by
    have hlength := congrArg List.length h
    simp [NetRequest.encode] at hlength
  writes happends _ hfits := happends.netRequest hfits
  reads := BufferReader.reads_netRequest

instance : WireFormat NetProtoOutbound where
  encode := NetProtoOutbound.encode
  Fits _ := True
  encode_ne_nil outbound h := by
    have hlength := congrArg List.length h
    simp [NetProtoOutbound.encode] at hlength
  writes happends val _ := happends.netProtoOutbound val
  reads := BufferReader.reads_netProtoOutbound

section WireFormat

variable {α : Type} [Serializable α] [WireFormat α] {val : α}

open WireFormat

theorem getSize_eq (hval : Fits val) : getSize val = (encode val).length := by
  rw [getSize, writes appends_sizeOfWriter val hval, Nat.zero_add]

theorem write_eq (bigEndian : Bool) (hval : Fits val) (buf : MutableBuffer) :
    write bigEndian buf val = buf.copy (encode val) :=
  writes (appends_bufferWriter bigEndian) val hval buf

theorem read_encode (bigEndian : Bool) (hval : Fits val) (rest : Bytes) :
    read bigEndian (encode val ++ rest) = some (val, rest) :=
  (reads bigEndian).encoded val hval rest

/-- Only encodings are read. -/
theorem encode_of_read {bigEndian : Bool} {buf rest : Bytes}
    (h : read bigEndian buf = some (val, rest)) : Fits val ∧ buf = encode val ++ rest :=
  (reads bigEndian).canonical buf val rest h

/-- Reading makes progress. -/
theorem length_lt_of_read {bigEndian : Bool} {buf rest : Bytes}
    (h : read bigEndian buf = some (val, rest)) : rest.length < buf.length := by
  have hpos : 0 < (encode val).length := List.length_pos_iff.mpr (encode_ne_nil val)
  rw [(encode_of_read h).2, List.length_append]
  omega

/-- `Write` fills a buffer of `GetSize` bytes, `Read` on any machine takes the message
back and leaves what follows it, and the bytes do not depend on the writing machine. -/
def RoundTrips (val : α) (rest : Bytes) : Prop :=
  ∀ writerBigEndian readerBigEndian : Bool,
    let buf := write writerBigEndian ⟨[], getSize val⟩ val
    buf.room = 0 ∧ buf.written.length = getSize val ∧
      read readerBigEndian (buf.written ++ rest) = some (val, rest) ∧
      (write (!writerBigEndian) ⟨[], getSize val⟩ val).written = buf.written

theorem write_getSize (bigEndian : Bool) (hval : Fits val) :
    write bigEndian ⟨[], getSize val⟩ val = ⟨encode val, 0⟩ := by
  rw [write_eq bigEndian hval, getSize_eq hval]
  simp [MutableBuffer.copy]

theorem roundTrips_of_fits (hval : Fits val) (rest : Bytes) : RoundTrips val rest := by
  intro writerBigEndian readerBigEndian
  rw [write_getSize _ hval, write_getSize _ hval]
  exact ⟨rfl, (getSize_eq hval).symm, read_encode readerBigEndian hval rest, rfl⟩

/-- A message that is read to the last byte is encoded by exactly these bytes. -/
theorem encode_of_read_nil {bigEndian : Bool} {buf : Bytes}
    (h : read bigEndian buf = some (val, [])) : Fits val ∧ buf = encode val := by
  obtain ⟨hval, hbuf⟩ := encode_of_read h
  exact ⟨hval, hbuf.trans (List.append_nil _)⟩

end WireFormat

/-- **Decoding undoes encoding** on the whole wire format, for every request whose
lengths fit in 32 bits and every header. -/
theorem decode_encode (request : NetRequest) (hcallstack : request.callstack.length < 2 ^ 32)
    (hstrings : ∀ item ∈ request.callstack,
      item.shlPath.length < 2 ^ 32 ∧ item.procname.length < 2 ^ 32)
    (outbound : NetProtoOutbound) (rest : Bytes) :
    RoundTrips request rest ∧ RoundTrips outbound rest := by
  have hrequest : WireFormat.Fits request := And.intro hcallstack hstrings
  have houtbound : WireFormat.Fits outbound := trivial
  exact ⟨roundTrips_of_fits hrequest rest, roundTrips_of_fits houtbound rest⟩

/-- A request with a call stack of one frame. -/
def sampleRequest : NetRequest :=
  ⟨kNetReqAdd, ⟨16, 100, -1⟩, [⟨[47, 108], [], 4096, 4100, 7, 4⟩]⟩

theorem decode_encode_sampleRequest :
    (write false ⟨[], getSize sampleRequest⟩ sampleRequest).written.length = 74 ∧
      read true ((write false ⟨[], getSize sampleRequest⟩ sampleRequest).written ++ [1]) =
        some (sampleRequest, [1]) := by
  obtain ⟨-, hlength, hread, -⟩ := (decode_encode sampleRequest (by decide) (by decide) ⟨0⟩ [1]).1
    false true
  exact ⟨hlength.trans (by decide), hread⟩

/-- **The wire format is canonical**: bytes that `Read` takes to the last one are of the size
that `GetSize` gives for the request, `Write` puts the same bytes back on any machine, and no
other bytes are read as this request. -/
theorem write_of_read {readerBigEndian : Bool} {buf : Bytes} {request : NetRequest}
    (hread : read readerBigEndian buf = some (request, [])) :
    getSize request = buf.length ∧
      (∀ writerBigEndian, write writerBigEndian ⟨[], getSize request⟩ request = ⟨buf, 0⟩) ∧
      ∀ otherBigEndian other, read otherBigEndian other = some (request, []) → other = buf := by
  obtain ⟨hrequest, hbuf⟩ := encode_of_read_nil hread
  refine ⟨?_, ?_, ?_⟩
  · rw [getSize_eq hrequest, hbuf]
  · intro writerBigEndian
    rw [write_getSize writerBigEndian hrequest, hbuf]
  · intro otherBigEndian other hother
    rw [(encode_of_read_nil hother).2, hbuf]

theorem write_of_read_sampleRequest :
    getSize sampleRequest = 74 ∧
      (write true ⟨[], 74⟩ sampleRequest).written = sampleRequest.encode := by
  have hread : read false sampleRequest.encode = some (sampleRequest, []) := by decide
  obtain ⟨hsize, hwritten, -⟩ := write_of_read hread
  have hlength : getSize sampleRequest = 74 := hsize.trans (by decide)
  refine ⟨hlength, ?_⟩
  rw [← hlength, hwritten true]

end Memhook
