import Memhook.Wire.Session

/-!
# Frames and their fragments

A stream conforms if the session can follow it: its frames hold one request each and
announce its size, requests that need a storage come after one was opened, and the
stream may stop anywhere or go on with anything after a request the session refuses.

`outcome_parseOutbound` says what parsing does with the received part of a
conforming stream.  Only `ParseOutbound` has to be looked at: a session that waits
for the rest of a body behaves as one that has the header back in its buffer
(`parseInbound_eq_parseOutbound`), so `pending`, the received bytes that belong to no
complete frame, is all that two reads have to do with each other.
-/

namespace Memhook

open Codec

/-! ## Requests and frames -/

namespace NetRequest

/-- The requests that change the storage. -/
def IsUpdate (request : NetRequest) : Prop :=
  request.type = kNetReqAdd ∨ request.type = kNetReqRemove ∨ request.type = kNetReqUpdateSize

/-- The requests `HandleNetRequest` has a case for. -/
def Known (request : NetRequest) : Prop :=
  request.IsUpdate ∨ request.type = kNetReqNewStorage

instance (request : NetRequest) : Decidable request.IsUpdate := inferInstanceAs (Decidable (_ ∨ _))

instance (request : NetRequest) : Decidable request.Known := inferInstanceAs (Decidable (_ ∨ _))

def header (request : NetRequest) : NetProtoOutbound := ⟨UInt64.ofNat request.encode.length⟩

/-- A request as it stands in the stream. -/
def frame (request : NetRequest) : Bytes := request.header.encode ++ request.encode

/-- The request fits the format, and its size fits the header.  The second holds of
every request whose buffer exists in a 64-bit address space. -/
structure Sendable (request : NetRequest) : Prop where
  fits : request.Fits
  size : request.encode.length < 2 ^ 64

theorem Sendable.toNat_header {request : NetRequest} (h : request.Sendable) :
    request.header.size.toNat = request.encode.length :=
  UInt64.toNat_ofNat_of_lt' h.size

theorem sendable_of_nil (type : NetReqType) (traceinfo : TraceInfoBase) :
    (⟨type, traceinfo, []⟩ : NetRequest).Sendable := by
  refine ⟨⟨by simp, by simp⟩, ?_⟩
  simp [encode, TraceInfoBase.encode]

variable {S : Type} [MappedStorage S] (storageCreator : Address → S)

/-- What a known request does to the storage. -/
def serve (storage : Option S) (request : NetRequest) : Option S :=
  if request.type = kNetReqAdd then
    storage.map fun storage => MappedStorage.add storage request.traceinfo.address
      request.traceinfo.memsize request.callstack request.traceinfo.timestamp
  else if request.type = kNetReqRemove then
    storage.map fun storage => (MappedStorage.remove storage request.traceinfo.address).1
  else if request.type = kNetReqUpdateSize then
    storage.map fun storage => (MappedStorage.updateSize storage request.traceinfo.address
      request.traceinfo.memsize).1
  else if request.type = kNetReqNewStorage then some (storageCreator request.traceinfo.address)
  else storage

end NetRequest

/-- A stream of frames that the session can follow; `hasStorage` says whether it has a
storage when the stream begins. -/
inductive Conforming : Bool → Bytes → Prop
  | short {hasStorage : Bool} {bytes : Bytes} (hlength : bytes.length < sizeofNetProtoOutbound) :
      Conforming hasStorage bytes
  | incomplete {hasStorage : Bool} (outbound : NetProtoOutbound) {body : Bytes}
      (hlength : body.length < outbound.size.toNat) :
      Conforming hasStorage (outbound.encode ++ body)
  | refused {hasStorage : Bool} (outbound : NetProtoOutbound) {request : NetRequest}
      (hfits : request.Fits) (hunknown : ¬ request.Known) {rest : Bytes}
      (hlength : (request.encode ++ rest).length = outbound.size.toNat) (more : Bytes) :
      Conforming hasStorage (outbound.encode ++ (request.encode ++ rest ++ more))
  | next {hasStorage : Bool} (outbound : NetProtoOutbound) {request : NetRequest}
      (hfits : request.Fits) (hknown : request.Known)
      (hstorage : request.IsUpdate → hasStorage = true)
      (hlength : request.encode.length = outbound.size.toNat) {more : Bytes}
      (hmore : Conforming true more) :
      Conforming hasStorage (outbound.encode ++ (request.encode ++ more))

namespace MemDBSession

variable {S : Type} [MappedStorage S] {storageCreator : Address → S}

/-! ## Handling -/

theorem handleNetRequest_known {session : MemDBSession S} {request : NetRequest}
    (hknown : request.Known) (hstorage : request.IsUpdate → session.storage.isSome) :
    session.handleNetRequest storageCreator request =
      .ok (true, { session with storage := request.serve storageCreator session.storage }) := by
  obtain ⟨type, traceinfo, callstack⟩ := request
  rcases hknown with hupdate | hnew
  · obtain ⟨storage, hsome⟩ := Option.isSome_iff_exists.mp (hstorage hupdate)
    rcases hupdate with htype | htype | htype <;>
      simp only at htype <;> subst htype <;>
      simp [handleNetRequest, NetRequest.serve, onAdd, onRemove, onUpdateSize, onStorage, hsome,
        kNetReqAdd, kNetReqRemove, kNetReqUpdateSize, pure, Except.pure, bind, Except.bind]
  · simp only at hnew
    subst hnew
    simp [handleNetRequest, NetRequest.serve, onNewStorage, kNetReqAdd, kNetReqRemove,
      kNetReqUpdateSize, kNetReqNewStorage, pure, Except.pure]

theorem handleNetRequest_noStorage {session : MemDBSession S} {request : NetRequest}
    (hupdate : request.IsUpdate) (hstorage : session.storage = none) :
    session.handleNetRequest storageCreator request = .error .noStorage := by
  obtain ⟨type, traceinfo, callstack⟩ := request
  rcases hupdate with htype | htype | htype <;>
    simp only at htype <;> subst htype <;>
    simp [handleNetRequest, onAdd, onRemove, onUpdateSize, onStorage, hstorage,
      kNetReqAdd, kNetReqRemove, kNetReqUpdateSize, bind, Except.bind]

theorem handleNetRequest_unknown {session : MemDBSession S} {request : NetRequest}
    (hunknown : ¬ request.Known) :
    session.handleNetRequest storageCreator request = .ok (false, session) := by
  simp only [NetRequest.Known, NetRequest.IsUpdate, not_or] at hunknown
  obtain ⟨⟨hadd, hremove, hupdate⟩, hnew⟩ := hunknown
  simp [handleNetRequest, hadd, hremove, hupdate, hnew, pure, Except.pure]

theorem isSome_serve {storage : Option S} {request : NetRequest} (hknown : request.Known)
    (hstorage : request.IsUpdate → storage.isSome) :
    (request.serve storageCreator storage).isSome := by
  rcases hknown with hupdate | hnew
  · obtain ⟨storage, rfl⟩ := Option.isSome_iff_exists.mp (hstorage hupdate)
    simp only [NetRequest.serve]
    split_ifs <;> rfl
  · simp only [NetRequest.serve, hnew]
    simp [kNetReqAdd, kNetReqRemove, kNetReqUpdateSize, kNetReqNewStorage]

/-! ## Parsing a conforming stream -/

/-- The received bytes that belong to no complete frame. -/
def pending (session : MemDBSession S) : ParsingCallback → Bytes
  | .parseOutbound => session.sbuf
  | .parseInbound => (⟨session.announced⟩ : NetProtoOutbound).encode ++ session.sbuf

/-- The session asks for just the rest of a header or of a body. -/
def Waits (session : MemDBSession S) (callback : ParsingCallback) (size : ℕ) : Prop :=
  size ≠ 0 ∧ session.sbuf.length + size =
    match callback with
    | .parseOutbound => sizeofNetProtoOutbound
    | .parseInbound => session.announced.toNat

omit [MappedStorage S] in
theorem waits_header {session : MemDBSession S}
    (hlength : session.sbuf.length < sizeofNetProtoOutbound) :
    session.Waits .parseOutbound (sizeofNetProtoOutbound - session.sbuf.length) := by
  refine ⟨by omega, ?_⟩
  show session.sbuf.length + (sizeofNetProtoOutbound - session.sbuf.length) =
    sizeofNetProtoOutbound
  omega

omit [MappedStorage S] in
theorem waits_body {session : MemDBSession S}
    (hlength : session.sbuf.length < session.announced.toNat) :
    session.Waits .parseInbound (session.announced.toNat - session.sbuf.length) := by
  refine ⟨by omega, ?_⟩
  show session.sbuf.length + (session.announced.toNat - session.sbuf.length) =
    session.announced.toNat
  omega

/-- The session has handled these requests, and parsed nothing else. -/
structure Handled (storageCreator : Address → S) (before after : MemDBSession S)
    (done : List NetRequest) : Prop where
  handled : after.handled = before.handled ++ done
  storage : after.storage = done.foldl (NetRequest.serve storageCreator) before.storage
  frames : after.frames =
    before.frames ++ done.map fun request => ⟨request.encode.length, request.encode.length, true⟩

theorem read_outbound (bigEndian : Bool) (outbound : NetProtoOutbound) (rest : Bytes) :
    read bigEndian (outbound.encode ++ rest) = some (outbound, rest) :=
  read_encode bigEndian (show WireFormat.Fits outbound from trivial) rest

theorem read_request (bigEndian : Bool) {request : NetRequest} (hfits : request.Fits)
    (rest : Bytes) : read bigEndian (request.encode ++ rest) = some (request, rest) :=
  read_encode bigEndian (show WireFormat.Fits request from hfits) rest

variable (bigEndian : Bool)

theorem parseOutbound_short {session : MemDBSession S}
    (hlength : session.sbuf.length < sizeofNetProtoOutbound) :
    session.parseOutbound bigEndian storageCreator =
      .ok (⟨sizeofNetProtoOutbound - session.sbuf.length, some .parseOutbound⟩, session) := by
  rw [parseOutbound, if_pos hlength]

/-- With a whole header in the buffer. -/
theorem parseOutbound_header {session : MemDBSession S} {outbound : NetProtoOutbound}
    {rest : Bytes} (hsbuf : session.sbuf = outbound.encode ++ rest) :
    session.parseOutbound bigEndian storageCreator =
      if rest.length < outbound.size.toNat then
        .ok (⟨outbound.size.toNat - rest.length, some .parseInbound⟩,
          { session with sbuf := rest, announced := outbound.size })
      else
        { session with sbuf := rest, announced := outbound.size }.parseInbound bigEndian
          storageCreator := by
  have hlength : ¬ session.sbuf.length < sizeofNetProtoOutbound := by
    simp [hsbuf, NetProtoOutbound.encode, sizeofNetProtoOutbound]
  rw [parseOutbound, if_neg hlength]
  split
  · next hread => simp [hsbuf, read_outbound] at hread
  · next found left hread =>
      rw [hsbuf, read_outbound] at hread
      cases hread
      rfl

/-- A session that has received the body it waits for goes on as if the header were
still in the buffer. -/
theorem parseInbound_eq_parseOutbound {session : MemDBSession S}
    (hlength : session.announced.toNat ≤ session.sbuf.length) :
    session.parseInbound bigEndian storageCreator =
      { session with sbuf := session.pending .parseInbound }.parseOutbound bigEndian
        storageCreator := by
  have hpending : ({ session with sbuf := session.pending .parseInbound } : MemDBSession S).sbuf =
      (⟨session.announced⟩ : NetProtoOutbound).encode ++ session.sbuf := rfl
  have hcomplete : ¬ session.sbuf.length < session.announced.toNat := by omega
  rw [parseOutbound_header bigEndian hpending, if_neg hcomplete]

/-- The session after a request it accepted. -/
def accept (storageCreator : Address → S) (request : NetRequest) (rest : Bytes)
    (session : MemDBSession S) : MemDBSession S :=
  { session with
    sbuf := rest
    storage := request.serve storageCreator session.storage
    handled := session.handled ++ [request]
    frames := session.frames ++ [⟨session.announced.toNat, request.encode.length, true⟩] }

/-- The session after a request it refused. -/
def refuse (request : NetRequest) (session : MemDBSession S) : MemDBSession S :=
  { session with
    handled := session.handled ++ [request]
    frames := session.frames ++ [⟨session.announced.toNat, request.encode.length, false⟩] }

/-- With a whole request in the buffer: what becomes of it is up to `HandleNetRequest`. -/
theorem parseInbound_request {session : MemDBSession S} {request : NetRequest} {rest : Bytes}
    (hsbuf : session.sbuf = request.encode ++ rest) (hfits : request.Fits) :
    session.parseInbound bigEndian storageCreator =
      (session.handleNetRequest storageCreator request).bind fun answer =>
        let parsed := { answer.2 with
          handled := answer.2.handled ++ [request]
          frames := answer.2.frames ++
            [⟨session.announced.toNat, request.encode.length, answer.1⟩] }
        if answer.1 = false then .ok (⟨0, none⟩, parsed)
        else { parsed with sbuf := rest }.parseOutbound bigEndian storageCreator := by
  rw [parseInbound]
  split
  · next hread => simp [hsbuf, read_request bigEndian hfits] at hread
  · next found left hread =>
      rw [hsbuf, read_request bigEndian hfits] at hread
      cases hread
      have hconsumed : session.sbuf.length - rest.length = request.encode.length := by
        rw [hsbuf, List.length_append]
        omega
      rw [hconsumed]
      refine congrArg (Except.bind _) (funext ?_)
      intro answer
      simp only
      split
      · rfl
      · -- `ParseOutbound` would find out for itself that the header is not there
        split
        · next hshort =>
            rw [parseOutbound_short bigEndian hshort]
            rfl
        · rfl

theorem parseInbound_known {session : MemDBSession S} {request : NetRequest} {rest : Bytes}
    (hsbuf : session.sbuf = request.encode ++ rest) (hfits : request.Fits)
    (hknown : request.Known) (hstorage : request.IsUpdate → session.storage.isSome) :
    session.parseInbound bigEndian storageCreator =
      (session.accept storageCreator request rest).parseOutbound bigEndian storageCreator := by
  rw [parseInbound_request bigEndian hsbuf hfits, handleNetRequest_known hknown hstorage]
  rfl

theorem parseInbound_noStorage {session : MemDBSession S} {request : NetRequest} {rest : Bytes}
    (hsbuf : session.sbuf = request.encode ++ rest) (hfits : request.Fits)
    (hupdate : request.IsUpdate) (hstorage : session.storage = none) :
    session.parseInbound bigEndian storageCreator = .error .noStorage := by
  rw [parseInbound_request bigEndian hsbuf hfits, handleNetRequest_noStorage hupdate hstorage]
  rfl

theorem parseInbound_unknown {session : MemDBSession S} {request : NetRequest} {rest : Bytes}
    (hsbuf : session.sbuf = request.encode ++ rest) (hfits : request.Fits)
    (hunknown : ¬ request.Known) :
    session.parseInbound bigEndian storageCreator =
      .ok (⟨0, none⟩, session.refuse request) := by
  rw [parseInbound_request bigEndian hsbuf hfits, handleNetRequest_unknown hunknown]
  rfl

namespace Handled

theorem refl (session session' : MemDBSession S) (hhandled : session'.handled = session.handled)
    (hstorage : session'.storage = session.storage) (hframes : session'.frames = session.frames) :
    Handled storageCreator session session' [] :=
  ⟨by simp [hhandled], hstorage, by simp [hframes]⟩

theorem trans {first second third : MemDBSession S} {done done' : List NetRequest}
    (h : Handled storageCreator first second done)
    (h' : Handled storageCreator second third done') :
    Handled storageCreator first third (done ++ done') := by
  refine ⟨?_, ?_, ?_⟩
  · rw [h'.handled, h.handled, List.append_assoc]
  · rw [h'.storage, h.storage, List.foldl_append]
  · rw [h'.frames, h.frames, List.map_append, List.append_assoc]

end Handled

/-- What parsing can come to on a conforming stream whose rest is `future`: the session
has handled the complete frames and waits, or it has refused a request. -/
inductive Outcome (storageCreator : Address → S) (session : MemDBSession S) (future : Bytes) :
    Except Fault (ParsingInfo × MemDBSession S) → Prop
  | waits {info : ParsingInfo} {callback : ParsingCallback} {session' : MemDBSession S}
      (done : List NetRequest) (hcallback : info.callback = some callback)
      (hwaits : session'.Waits callback info.size)
      (hhandled : Handled storageCreator session session' done)
      (hdone : ∀ request ∈ done, request.Sendable ∧ request.Known)
      (hbytes : session.sbuf = done.flatMap NetRequest.frame ++ session'.pending callback)
      (hmore : Conforming session'.storage.isSome (session'.pending callback ++ future)) :
      Outcome storageCreator session future (.ok (info, session'))
  | closes {session' : MemDBSession S} (done : List NetRequest) (outbound : NetProtoOutbound)
      (request : NetRequest) (rest : Bytes) (hannounced : session'.announced = outbound.size)
      (hfits : request.Fits) (hunknown : ¬ request.Known)
      (hconsumed : request.encode.length ≤ outbound.size.toNat)
      (hhandled : Handled storageCreator session session' done)
      (hdone : ∀ request ∈ done, request.Sendable ∧ request.Known)
      (hbytes : session.sbuf =
        done.flatMap NetRequest.frame ++ (outbound.encode ++ (request.encode ++ rest))) :
      Outcome storageCreator session future (.ok (⟨0, none⟩, session'.refuse request))

/-- The outcome counts from before a request that was handled first. -/
theorem Outcome.cons {session session' : MemDBSession S} {future : Bytes}
    {result : Except Fault (ParsingInfo × MemDBSession S)} {request : NetRequest}
    (hrequest : request.Sendable ∧ request.Known)
    (hfirst : Handled storageCreator session session' [request])
    (hsbuf : session.sbuf = request.frame ++ session'.sbuf)
    (h : Outcome storageCreator session' future result) :
    Outcome storageCreator session future result := by
  have hcons : ∀ {done : List NetRequest},
      (∀ other ∈ done, other.Sendable ∧ other.Known) →
      ∀ other ∈ request :: done, other.Sendable ∧ other.Known := by
    intro done hdone other hother
    rcases List.mem_cons.mp hother with rfl | hother
    · exact hrequest
    · exact hdone other hother
  cases h with
  | waits done hcallback hwaits hhandled hdone hbytes hmore =>
      refine .waits (request :: done) hcallback hwaits (hfirst.trans hhandled) (hcons hdone) ?_
        hmore
      rw [hsbuf, hbytes, List.flatMap_cons, List.append_assoc]
  | closes done outbound refused rest hannounced hfits hunknown hconsumed hhandled hdone hbytes =>
      refine .closes (request :: done) outbound refused rest hannounced hfits hunknown hconsumed
        (hfirst.trans hhandled) (hcons hdone) ?_
      rw [hsbuf, hbytes, List.flatMap_cons, List.append_assoc]

/-- The parts of two equal splits of a list. -/
theorem exists_of_append_eq {α : Type} {front back left right : List α}
    (h : front ++ back = left ++ right) (hlength : front.length ≤ left.length) :
    ∃ middle, left = front ++ middle ∧ back = middle ++ right := by
  rcases List.append_eq_append_iff.mp h with ⟨middle, hleft, hback⟩ | ⟨middle, hfront, hright⟩
  · exact ⟨middle, hleft, hback⟩
  · have hempty : middle = [] := by
      have := congrArg List.length hfront
      rw [List.length_append] at this
      exact List.length_eq_zero_iff.mp (by omega)
    subst hempty
    exact ⟨[], by simpa using hfront.symm, by simpa using hright.symm⟩

theorem frame_eq {outbound : NetProtoOutbound} {request : NetRequest}
    (hlength : request.encode.length = outbound.size.toNat) :
    request.frame = outbound.encode ++ request.encode := by
  rw [NetRequest.frame, NetRequest.header, hlength, UInt64.ofNat_toNat]

/-- A header that is not there yet. -/
theorem outcome_short {session : MemDBSession S} {future : Bytes}
    (hlength : session.sbuf.length < sizeofNetProtoOutbound)
    (h : Conforming session.storage.isSome (session.sbuf ++ future)) :
    Outcome storageCreator session future (session.parseOutbound bigEndian storageCreator) := by
  rw [parseOutbound_short bigEndian hlength]
  exact .waits [] rfl (waits_header hlength) (.refl _ _ rfl rfl rfl) (by simp) rfl h

/-- A body that is not there yet. -/
theorem outcome_incomplete {session : MemDBSession S} {future rest : Bytes}
    {outbound : NetProtoOutbound} (hsbuf : session.sbuf = outbound.encode ++ rest)
    (hlength : rest.length < outbound.size.toNat)
    (h : Conforming session.storage.isSome (session.sbuf ++ future)) :
    Outcome storageCreator session future (session.parseOutbound bigEndian storageCreator) := by
  rw [parseOutbound_header bigEndian hsbuf, if_pos hlength]
  rw [hsbuf] at h
  exact .waits [] rfl (waits_body hlength) (.refl _ _ rfl rfl rfl) (by simp) hsbuf h

/-- The first frame of the stream: it is not complete yet, or `ParseInbound` is called
with the whole body. -/
theorem outcome_header {session : MemDBSession S} {future tail : Bytes}
    {outbound : NetProtoOutbound} (h : Conforming session.storage.isSome (outbound.encode ++ tail))
    (hstream : outbound.encode ++ tail = session.sbuf ++ future)
    (hwhole : ∀ rest, session.sbuf = outbound.encode ++ rest → tail = rest ++ future →
      outbound.size.toNat ≤ rest.length → Outcome storageCreator session future
        ({ session with sbuf := rest, announced := outbound.size }.parseInbound bigEndian
          storageCreator)) :
    Outcome storageCreator session future (session.parseOutbound bigEndian storageCreator) := by
  rw [hstream] at h
  by_cases hshort : session.sbuf.length < sizeofNetProtoOutbound
  · exact outcome_short bigEndian hshort h
  · have hheader : outbound.encode.length ≤ session.sbuf.length := by
      simpa [NetProtoOutbound.encode, sizeofNetProtoOutbound] using hshort
    obtain ⟨rest, hsbuf, htail⟩ := exists_of_append_eq hstream hheader
    by_cases hlength : rest.length < outbound.size.toNat
    · exact outcome_incomplete bigEndian hsbuf hlength h
    · rw [parseOutbound_header bigEndian hsbuf, if_neg hlength]
      exact hwhole rest hsbuf htail (by omega)

/-- Parsing the received part of a conforming stream. -/
theorem outcome_parseOutbound {hasStorage : Bool} {stream : Bytes}
    (h : Conforming hasStorage stream) {session : MemDBSession S} {future : Bytes}
    (hstream : stream = session.sbuf ++ future) (hstorage : session.storage.isSome = hasStorage) :
    Outcome storageCreator session future (session.parseOutbound bigEndian storageCreator) := by
  induction h generalizing session with
  | @short hasStorage bytes hlength =>
      have hshort : session.sbuf.length < sizeofNetProtoOutbound := by
        rw [hstream, List.length_append] at hlength
        omega
      refine outcome_short bigEndian hshort (.short ?_)
      rwa [← hstream]
  | @incomplete _ outbound body hlength =>
      refine outcome_header bigEndian (.incomplete outbound hlength) hstream
        fun rest _ hbody hwhole => ?_
      -- a whole body contradicts that the stream ends within it
      rw [hbody, List.length_append] at hlength
      omega
  | @refused _ outbound request hfits hunknown unread hlength more =>
      refine outcome_header bigEndian (.refused outbound hfits hunknown hlength more) hstream
        fun rest hsbuf htail hwhole => ?_
      -- what has arrived after the request is left alone
      obtain ⟨extra, hrest, -⟩ := exists_of_append_eq htail (hlength ▸ hwhole)
      have hbody : rest = request.encode ++ (unread ++ extra) := by
        rw [hrest, List.append_assoc]
      rw [parseInbound_unknown bigEndian hbody hfits hunknown]
      refine .closes [] outbound request (unread ++ extra) rfl hfits hunknown ?_
        (.refl _ _ rfl rfl rfl) (by simp) (by rw [hsbuf, hbody]; rfl)
      rw [List.length_append] at hlength
      omega
  | @next _ outbound request hfits hknown hneeds hlength more hmore ih =>
      refine outcome_header bigEndian
        (.next outbound hfits hknown (hstorage ▸ hneeds) hlength hmore) hstream
        fun rest hsbuf htail hwhole => ?_
      obtain ⟨extra, hrest, hextra⟩ := exists_of_append_eq htail (hlength ▸ hwhole)
      have hneeds' : request.IsUpdate → session.storage.isSome := hstorage ▸ hneeds
      have hparse : ({ session with
            sbuf := rest
            announced := outbound.size } : MemDBSession S).parseInbound bigEndian storageCreator =
          ({ session with sbuf := rest, announced := outbound.size }.accept storageCreator request
            extra).parseOutbound bigEndian storageCreator :=
        parseInbound_known bigEndian hrest hfits hknown hneeds'
      rw [hparse]
      have hsize : request.encode.length < 2 ^ 64 := hlength ▸ outbound.size.toNat_lt
      refine .cons ⟨⟨hfits, hsize⟩, hknown⟩ ⟨rfl, rfl, ?_⟩ ?_
        (ih hextra (isSome_serve hknown hneeds'))
      · simp [accept, hlength]
      · rw [hsbuf, hrest, frame_eq hlength, List.append_assoc]
        rfl

end MemDBSession

end Memhook
