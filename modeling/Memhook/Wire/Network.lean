import Memhook.Wire.Framing

/-!
# The storage behind the network

`NetworkMappedStorage` of `src/memhookcore/network_mapped_storage.cpp`: each operation
is a request, and `Send` writes a request with its header into a buffer of the right
size and hands the buffer to the stream.  The model keeps what the stream was given.
-/

namespace Memhook

/-- The client, built for one byte order. -/
structure NetworkMappedStorage where
  bigEndian : Bool
  sent : Bytes

namespace NetworkMappedStorage

/-- The buffer of `Send` after both writes. -/
def sendBuffer (bigEndian : Bool) (request : NetRequest) : MutableBuffer :=
  let outbound : NetProtoOutbound := ⟨UInt64.ofNat (getSize request)⟩
  let bufSize := outbound.size.toNat + getSize outbound
  let tmpbuf := write bigEndian ⟨[], bufSize⟩ outbound
  write bigEndian tmpbuf request

def send (request : NetRequest) (storage : NetworkMappedStorage) : NetworkMappedStorage :=
  { storage with sent := storage.sent ++ (sendBuffer storage.bigEndian request).written }

/-- The constructor, after the connection has been made. -/
def new (bigEndian : Bool) (pid : UInt32) (now : TimePoint) : NetworkMappedStorage :=
  send ⟨kNetReqNewStorage, ⟨pid.toUInt64, 0, now⟩, []⟩ ⟨bigEndian, []⟩

def add (storage : NetworkMappedStorage) (address : Address) (memsize : UInt64)
    (callstack : CallStackInfo) (timestamp : TimePoint) : NetworkMappedStorage :=
  storage.send ⟨kNetReqAdd, ⟨address, memsize, timestamp⟩, callstack⟩

def remove (storage : NetworkMappedStorage) (address : Address) : NetworkMappedStorage × Bool :=
  (storage.send ⟨kNetReqRemove, ⟨address, 0, 0⟩, []⟩, true)

def updateSize (storage : NetworkMappedStorage) (address : Address) (memsize : UInt64) :
    NetworkMappedStorage × Bool :=
  (storage.send ⟨kNetReqUpdateSize, ⟨address, memsize, 0⟩, []⟩, true)

def clear (storage : NetworkMappedStorage) : NetworkMappedStorage :=
  storage.send ⟨kNetReqClear, ⟨0, 0, 0⟩, []⟩

/-- `Flush` passes on what the stream already has. -/
def flush (storage : NetworkMappedStorage) : NetworkMappedStorage := storage

instance : MappedStorage NetworkMappedStorage where
  add := add
  remove := remove
  updateSize := updateSize
  clear := clear
  flush := flush

/-- The buffer is filled to its end with the frame of the request. -/
theorem sendBuffer_eq (bigEndian : Bool) {request : NetRequest} (h : request.Sendable) :
    sendBuffer bigEndian request = ⟨request.frame, 0⟩ := by
  have hfits : WireFormat.Fits request := h.fits
  have hsize : getSize request = request.encode.length := getSize_eq hfits
  have houtbound : WireFormat.Fits request.header := trivial
  have hheader : (⟨UInt64.ofNat (getSize request)⟩ : NetProtoOutbound) = request.header := by
    rw [hsize, NetRequest.header]
  have hroom : (UInt64.ofNat (getSize request)).toNat + getSize request.header =
      request.frame.length := by
    rw [hsize, UInt64.toNat_ofNat_of_lt' h.size, getSize_eq houtbound, NetRequest.frame,
      List.length_append, Nat.add_comm]
    rfl
  simp only [sendBuffer, hheader, hroom, write_eq bigEndian houtbound, write_eq bigEndian hfits]
  rw [← MutableBuffer.copy_append]
  show MutableBuffer.copy request.frame ⟨[], request.frame.length⟩ = _
  simp [MutableBuffer.copy]

theorem sent_send {request : NetRequest} (h : request.Sendable)
    (storage : NetworkMappedStorage) :
    (storage.send request).sent = storage.sent ++ request.frame := by
  rw [send, sendBuffer_eq storage.bigEndian h]

/-- The stream that `Send` produces. -/
theorem sent_foldl_send {requests : List NetRequest} (h : ∀ request ∈ requests, request.Sendable)
    (storage : NetworkMappedStorage) :
    (requests.foldl (fun storage request => storage.send request) storage).sent =
      storage.sent ++ requests.flatMap NetRequest.frame := by
  induction requests generalizing storage with
  | nil => simp
  | cons request rest ih =>
      rw [List.foldl_cons, ih fun other hother => h other (List.mem_cons_of_mem _ hother),
        sent_send (h request (List.mem_cons_self ..)), List.flatMap_cons, List.append_assoc]

end NetworkMappedStorage

end Memhook
