import Memhook.Storage.BasicMappedStorage
import Memhook.Wire.Serialization

/-!
# A session of the database server

`MemDBSession` of `src/memdb/memdb_session.cpp`: what it has read and not yet parsed,
the storage it works on, and the two parsing functions that call each other until
they need more bytes.  A parsing function answers with the number of bytes to read
next and the function to call then; the answer `0` closes the connection.

The source checks neither that the decoder stays within the received bytes nor that
there is a storage when a request needs one.  Both are faults here.

Three fields of the model are not in the source and are never read by it: the
requests passed to `HandleNetRequest`, the size the last header announced, and for
every parsed frame what was announced and what was consumed.
-/

namespace Memhook

open Codec

/-- What the source does not guard against: a read past the received bytes, a use of
an absent `storage_`, and a call of a parsing function that is `NULL`. -/
inductive Fault
  | overread
  | noStorage
  | noCallback
  deriving DecidableEq, Repr

inductive ParsingCallback
  | parseOutbound
  | parseInbound
  deriving DecidableEq, Repr

structure ParsingInfo where
  size : ℕ
  callback : Option ParsingCallback
  deriving DecidableEq, Repr

/-- `sizeof(NetProtoOutbound)`. -/
def sizeofNetProtoOutbound : ℕ := 8

/-- One call of `ParseInbound`: the size the header announced, the bytes the decoder
read, and the answer of `HandleNetRequest`. -/
structure ParsedFrame where
  announced : ℕ
  consumed : ℕ
  accepted : Bool
  deriving DecidableEq, Repr

structure MemDBSession (S : Type) where
  sbuf : Bytes
  storage : Option S
  announced : UInt64
  handled : List NetRequest
  frames : List ParsedFrame

namespace MemDBSession

variable {S : Type} [MappedStorage S]

/-- The constructor. -/
def initial : MemDBSession S := ⟨[], none, 0, [], []⟩

/-! ## Requests -/

/-- A call on `storage_`. -/
def onStorage (f : S → S) (session : MemDBSession S) : Except Fault (MemDBSession S) :=
  match session.storage with
  | none => .error .noStorage
  | some storage => .ok { session with storage := some (f storage) }

def onAdd (traceinfo : TraceInfoBase) (callstack : CallStackInfo) :
    MemDBSession S → Except Fault (MemDBSession S) :=
  onStorage fun storage => MappedStorage.add storage traceinfo.address traceinfo.memsize callstack
    traceinfo.timestamp

def onRemove (traceinfo : TraceInfoBase) : MemDBSession S → Except Fault (MemDBSession S) :=
  onStorage fun storage => (MappedStorage.remove storage traceinfo.address).1

def onUpdateSize (traceinfo : TraceInfoBase) : MemDBSession S → Except Fault (MemDBSession S) :=
  onStorage fun storage => (MappedStorage.updateSize storage traceinfo.address traceinfo.memsize).1

/-- `storageCreator` is `MappedStorageCreator::New`. -/
def onNewStorage (storageCreator : Address → S) (pid : Address) (session : MemDBSession S) :
    MemDBSession S :=
  { session with storage := some (storageCreator pid) }

def handleNetRequest (storageCreator : Address → S) (request : NetRequest)
    (session : MemDBSession S) : Except Fault (Bool × MemDBSession S) :=
  if request.type = kNetReqAdd then do
    return (true, ← session.onAdd request.traceinfo request.callstack)
  else if request.type = kNetReqRemove then do
    return (true, ← session.onRemove request.traceinfo)
  else if request.type = kNetReqUpdateSize then do
    return (true, ← session.onUpdateSize request.traceinfo)
  else if request.type = kNetReqNewStorage then
    return (true, session.onNewStorage storageCreator request.traceinfo.address)
  else return (false, session)

/-! ## Parsing -/

variable (bigEndian : Bool) (storageCreator : Address → S)

mutual

def parseOutbound (session : MemDBSession S) : Except Fault (ParsingInfo × MemDBSession S) :=
  if session.sbuf.length < sizeofNetProtoOutbound then
    .ok (⟨sizeofNetProtoOutbound - session.sbuf.length, some .parseOutbound⟩, session)
  else
    match _hread : (read bigEndian session.sbuf : Option (NetProtoOutbound × Bytes)) with
    | none => .error .overread
    | some (outbound, rest) =>
        if rest.length < outbound.size.toNat then
          .ok (⟨outbound.size.toNat - rest.length, some .parseInbound⟩,
            { session with sbuf := rest, announced := outbound.size })
        else
          parseInbound { session with sbuf := rest, announced := outbound.size }
termination_by session.sbuf.length
decreasing_by exact length_lt_of_read _hread

def parseInbound (session : MemDBSession S) : Except Fault (ParsingInfo × MemDBSession S) :=
  match _hread : (read bigEndian session.sbuf : Option (NetRequest × Bytes)) with
  | none => .error .overread
  | some (request, rest) => do
      let (accepted, session') ← session.handleNetRequest storageCreator request
      let parsed := { session' with
        handled := session'.handled ++ [request]
        frames := session'.frames ++
          [⟨session.announced.toNat, session.sbuf.length - rest.length, accepted⟩] }
      if accepted = false then
        return (⟨0, none⟩, parsed)
      else if rest.length < sizeofNetProtoOutbound then
        return (⟨sizeofNetProtoOutbound - rest.length, some .parseOutbound⟩,
          { parsed with sbuf := rest })
      else
        parseOutbound { parsed with sbuf := rest }
termination_by session.sbuf.length
decreasing_by exact length_lt_of_read _hread

end

end MemDBSession

/-! ## The connection -/

/-- When an asynchronous read is complete. -/
inductive CompletionCondition
  | transferAtLeast (size : ℕ)
  | transferExactly (size : ℕ)
  deriving DecidableEq, Repr

namespace CompletionCondition

def size : CompletionCondition → ℕ
  | transferAtLeast size | transferExactly size => size

def Met (transferred : ℕ) : CompletionCondition → Prop
  | transferAtLeast size => size ≤ transferred
  | transferExactly size => transferred = size

instance (transferred : ℕ) (condition : CompletionCondition) :
    Decidable (condition.Met transferred) :=
  match condition with
  | transferAtLeast size => inferInstanceAs (Decidable (size ≤ transferred))
  | transferExactly size => inferInstanceAs (Decidable (transferred = size))

theorem met_size (condition : CompletionCondition) : condition.Met condition.size := by
  cases condition with
  | transferAtLeast size => exact Nat.le_refl size
  | transferExactly size => rfl

end CompletionCondition

/-- A session waits for a read, or it is over. -/
inductive Connection (S : Type)
  | reading (session : MemDBSession S) (condition : CompletionCondition)
      (callback : ParsingCallback)
  | closed (session : MemDBSession S)
  | faulted (fault : Fault)

namespace Connection

variable {S : Type} [MappedStorage S]

/-- `MemDBSession::Start`. -/
def start : Connection S :=
  reading .initial (.transferAtLeast sizeofNetProtoOutbound) .parseOutbound

variable (bigEndian : Bool) (storageCreator : Address → S)

def call (callback : ParsingCallback) (session : MemDBSession S) :
    Except Fault (ParsingInfo × MemDBSession S) :=
  match callback with
  | .parseOutbound => session.parseOutbound bigEndian storageCreator
  | .parseInbound => session.parseInbound bigEndian storageCreator

/-- `MemDBSession::OnReadComplete` after a read without an error. -/
def onReadComplete (callback : ParsingCallback) (session : MemDBSession S) : Connection S :=
  match call bigEndian storageCreator callback session with
  | .error fault => faulted fault
  | .ok (parsingInfo, session) =>
      if parsingInfo.size = 0 then closed session
      else
        match parsingInfo.callback with
        | none => faulted .noCallback
        | some callback => reading session (.transferExactly parsingInfo.size) callback

/-- A read completes with these bytes. -/
def receive (connection : Connection S) (bytes : Bytes) : Connection S :=
  match connection with
  | reading session _ callback =>
      onReadComplete bigEndian storageCreator callback
        { session with sbuf := session.sbuf ++ bytes }
  | other => other

/-- The reads of a connection, one after the other. -/
def run (connection : Connection S) (reads : List Bytes) : Connection S :=
  reads.foldl (receive bigEndian storageCreator) connection

/-- Every read delivers as many bytes as the session asked for, and there are reads
only while the session waits for one. -/
def Delivers (connection : Connection S) : List Bytes → Prop
  | [] => True
  | bytes :: rest =>
      match connection with
      | reading _ condition _ =>
          condition.Met bytes.length ∧
            Delivers (connection.receive bigEndian storageCreator bytes) rest
      | _ => False

end Connection

end Memhook
