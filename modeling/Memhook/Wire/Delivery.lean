import Memhook.Wire.Network

/-!
# Delivery in any fragments

`Connection.Follows` is the invariant of a connection that is sent a conforming
stream: what has been delivered is the frames of the handled requests and then the
pending bytes, and the session asks for just what completes the pending header or
body.  One read preserves it (`Follows.receive`), hence any sequence of reads does
(`Follows.run`), wherever the boundaries between them fall.

For the stream of the client the handled requests are determined by the number of
bytes delivered, because a frame can be told from what follows it.
-/

namespace Memhook

open Codec MemDBSession

namespace Connection

variable {S : Type} [MappedStorage S] {storageCreator : Address → S}

/-! ## The invariant -/

/-- The connection has followed a conforming stream up to here. -/
inductive Follows (storageCreator : Address → S) (delivered future : Bytes) :
    Connection S → Prop
  | waits {session : MemDBSession S} {condition : CompletionCondition}
      {callback : ParsingCallback} (done : List NetRequest)
      (hwaits : session.Waits callback condition.size)
      (hhandled : Handled storageCreator .initial session done)
      (hdone : ∀ request ∈ done, request.Sendable ∧ request.Known)
      (hbytes : delivered = done.flatMap NetRequest.frame ++ session.pending callback)
      (hmore : Conforming session.storage.isSome (session.pending callback ++ future)) :
      Follows storageCreator delivered future (.reading session condition callback)
  | closed {session : MemDBSession S} (done : List NetRequest) (outbound : NetProtoOutbound)
      (request : NetRequest) (rest : Bytes) (hannounced : session.announced = outbound.size)
      (hfits : request.Fits) (hunknown : ¬ request.Known)
      (hconsumed : request.encode.length ≤ outbound.size.toNat)
      (hhandled : Handled storageCreator .initial session done)
      (hdone : ∀ request ∈ done, request.Sendable ∧ request.Known)
      (hbytes : delivered =
        done.flatMap NetRequest.frame ++ (outbound.encode ++ (request.encode ++ rest))) :
      Follows storageCreator delivered future (.closed (session.refuse request))

theorem follows_start {stream : Bytes} (h : Conforming false stream) :
    Follows storageCreator [] stream start :=
  .waits [] ⟨by decide, rfl⟩ (.refl _ _ rfl rfl rfl) (by simp) rfl h

variable (bigEndian : Bool)

/-- Whatever the session waits for, it goes on by parsing its pending bytes. -/
theorem call_eq_parseOutbound {session : MemDBSession S} {callback : ParsingCallback}
    {condition : CompletionCondition} {bytes : Bytes}
    (hwaits : session.Waits callback condition.size) (hmet : condition.Met bytes.length) :
    call bigEndian storageCreator callback { session with sbuf := session.sbuf ++ bytes } =
      { session with sbuf := session.pending callback ++ bytes }.parseOutbound bigEndian
        storageCreator := by
  cases callback with
  | parseOutbound => rfl
  | parseInbound =>
      have htransferred : condition.size ≤ bytes.length := by
        cases condition with
        | transferAtLeast size => exact hmet
        | transferExactly size => exact Nat.le_of_eq (Eq.symm hmet)
      have hlength : session.announced.toNat ≤ (session.sbuf ++ bytes).length := by
        have hsum : session.sbuf.length + condition.size = session.announced.toNat := hwaits.2
        rw [List.length_append]
        omega
      show { session with sbuf := session.sbuf ++ bytes }.parseInbound bigEndian storageCreator = _
      rw [parseInbound_eq_parseOutbound bigEndian hlength]
      simp [pending]

theorem Follows.receive {delivered bytes future : Bytes} {session : MemDBSession S}
    {condition : CompletionCondition} {callback : ParsingCallback}
    (h : Follows storageCreator delivered (bytes ++ future)
      (.reading session condition callback)) (hmet : condition.Met bytes.length) :
    Follows storageCreator (delivered ++ bytes) future
      ((Connection.reading session condition callback).receive bigEndian storageCreator bytes) := by
  cases h with
  | waits done hwaits hhandled hdone hbytes hmore =>
      have hfull : Handled storageCreator .initial
          { session with sbuf := session.pending callback ++ bytes } done :=
        ⟨hhandled.handled, hhandled.storage, hhandled.frames⟩
      have houtcome : Outcome storageCreator
          { session with sbuf := session.pending callback ++ bytes } future
          (call bigEndian storageCreator callback
            { session with sbuf := session.sbuf ++ bytes }) := by
        rw [call_eq_parseOutbound bigEndian hwaits hmet]
        exact outcome_parseOutbound bigEndian hmore (List.append_assoc ..).symm rfl
      -- what is handled now comes after what was handled before
      have hall : ∀ {done' : List NetRequest},
          (∀ request ∈ done', request.Sendable ∧ request.Known) →
          ∀ request ∈ done ++ done', request.Sendable ∧ request.Known :=
        fun hdone' request hrequest =>
          (List.mem_append.mp hrequest).elim (hdone request) (hdone' request)
      simp only [Connection.receive, onReadComplete]
      generalize call bigEndian storageCreator callback
        { session with sbuf := session.sbuf ++ bytes } = result at houtcome
      cases houtcome with
      | waits done' hcallback hwaits' hhandled' hdone' hbytes' hmore' =>
          simp only [if_neg hwaits'.1, hcallback]
          refine .waits (done ++ done') hwaits' (hfull.trans hhandled') (hall hdone') ?_ hmore'
          have hbytes'' : session.pending callback ++ bytes = _ := hbytes'
          rw [hbytes, List.append_assoc, hbytes'', List.flatMap_append, List.append_assoc]
      | closes done' outbound request rest hannounced hfits hunknown hconsumed hhandled' hdone'
          hbytes' =>
          simp only [if_pos]
          refine .closed (done ++ done') outbound request rest hannounced hfits hunknown hconsumed
            (hfull.trans hhandled') (hall hdone') ?_
          have hbytes'' : session.pending callback ++ bytes = _ := hbytes'
          rw [hbytes, List.append_assoc, hbytes'', List.flatMap_append, List.append_assoc]

theorem Follows.run {connection : Connection S} {delivered future : Bytes} {reads : List Bytes}
    (h : Follows storageCreator delivered (reads.flatten ++ future) connection)
    (hdelivers : connection.Delivers bigEndian storageCreator reads) :
    Follows storageCreator (delivered ++ reads.flatten) future
      (connection.run bigEndian storageCreator reads) := by
  induction reads generalizing connection delivered with
  | nil => simpa [Connection.run] using h
  | cons bytes rest ih =>
      cases connection with
      | reading session condition callback =>
          rw [List.flatten_cons, List.append_assoc] at h
          have hstep := ih (h.receive bigEndian hdelivers.1) hdelivers.2
          rwa [List.append_assoc, ← List.flatten_cons] at hstep
      | closed session => exact hdelivers.elim
      | faulted fault => exact hdelivers.elim

end Connection

/-! ## Telling frames apart -/

theorem frame_append_inj {request request' : NetRequest} {rest rest' : Bytes}
    (hfits : request.Fits) (hfits' : request'.Fits)
    (h : request.frame ++ rest = request'.frame ++ rest') : request = request' ∧ rest = rest' := by
  have hread := congrArg (fun bytes => (read true bytes : Option (NetProtoOutbound × Bytes))) h
  simp only [NetRequest.frame, List.append_assoc, read_outbound] at hread
  obtain ⟨-, hbody⟩ : request.header = request'.header ∧
      request.encode ++ rest = request'.encode ++ rest' := by simpa using hread
  have hread' := congrArg (fun bytes => (read true bytes : Option (NetRequest × Bytes))) hbody
  simpa [read_request true hfits, read_request true hfits'] using hread'

theorem frame_ne_nil (request : NetRequest) : request.frame ≠ [] := by
  intro h
  have hlength := congrArg List.length h
  simp [NetRequest.frame, NetProtoOutbound.encode] at hlength

/-- Complete frames at the front of a stream of frames are its first frames. -/
theorem exists_rest_of_frames {done requests : List NetRequest} {tail : Bytes}
    (hdone : ∀ request ∈ done, request.Fits) (hrequests : ∀ request ∈ requests, request.Fits)
    (h : done.flatMap NetRequest.frame ++ tail = requests.flatMap NetRequest.frame) :
    ∃ rest, requests = done ++ rest ∧ tail = rest.flatMap NetRequest.frame := by
  induction done generalizing requests with
  | nil => exact ⟨requests, rfl, h⟩
  | cons request done ih =>
      cases requests with
      | nil =>
          rw [List.flatMap_cons, List.append_assoc] at h
          exact absurd (List.append_eq_nil_iff.mp h).1 (frame_ne_nil request)
      | cons other requests =>
          simp only [List.flatMap_cons, List.append_assoc] at h
          obtain ⟨rfl, hrest⟩ := frame_append_inj (hdone request (List.mem_cons_self ..))
            (hrequests other (List.mem_cons_self ..)) h
          obtain ⟨rest, rfl, htail⟩ := ih
            (fun r hr => hdone r (List.mem_cons_of_mem _ hr))
            (fun r hr => hrequests r (List.mem_cons_of_mem _ hr)) hrest
          exact ⟨rest, rfl, htail⟩

/-- A header at the front of a stream of frames is the header of the first one. -/
theorem exists_cons_of_header {outbound : NetProtoOutbound} {tail : Bytes}
    {requests : List NetRequest}
    (h : outbound.encode ++ tail = requests.flatMap NetRequest.frame) :
    ∃ request rest, requests = request :: rest ∧ outbound = request.header ∧
      tail = request.encode ++ rest.flatMap NetRequest.frame := by
  cases requests with
  | nil =>
      have hnil : outbound.encode = [] := (List.append_eq_nil_iff.mp h).1
      exact absurd hnil (WireFormat.encode_ne_nil outbound)
  | cons request rest =>
      rw [List.flatMap_cons, NetRequest.frame, List.append_assoc] at h
      have hread := congrArg (fun bytes => (read true bytes : Option (NetProtoOutbound × Bytes))) h
      obtain ⟨rfl, rfl⟩ : outbound = request.header ∧
          tail = request.encode ++ rest.flatMap NetRequest.frame := by
        simpa [read_outbound] using hread
      exact ⟨request, rest, rfl, rfl, rfl⟩

/-- The requests whose frames lie within the first `delivered` bytes of the stream. -/
def completeFrames : List NetRequest → ℕ → List NetRequest
  | [], _ => []
  | request :: rest, delivered =>
      if request.frame.length ≤ delivered then
        request :: completeFrames rest (delivered - request.frame.length)
      else []

theorem completeFrames_append (done rest : List NetRequest) (extra : ℕ) :
    completeFrames (done ++ rest) ((done.flatMap NetRequest.frame).length + extra) =
      done ++ completeFrames rest extra := by
  induction done with
  | nil => simp
  | cons request done ih =>
      rw [List.flatMap_cons, List.length_append, List.cons_append, completeFrames,
        if_pos (by omega), Nat.add_assoc, Nat.add_sub_cancel_left, ih, List.cons_append]

/-- The frames of a client that opens a storage first form a conforming stream,
whatever its later requests are. -/
theorem conforming_frames {requests : List NetRequest} {hasStorage : Bool}
    (hsendable : ∀ request ∈ requests, request.Sendable)
    (hstorage : hasStorage = true ∨ ∀ request ∈ requests.head?, request.type = kNetReqNewStorage) :
    Conforming hasStorage (requests.flatMap NetRequest.frame) := by
  induction requests generalizing hasStorage with
  | nil => exact .short (by decide)
  | cons request rest ih =>
      have hrequest := hsendable request (List.mem_cons_self ..)
      have hlength : request.encode.length = request.header.size.toNat := hrequest.toNat_header.symm
      rw [List.flatMap_cons, NetRequest.frame, List.append_assoc]
      by_cases hknown : request.Known
      · refine .next request.header hrequest.fits hknown (fun hupdate => ?_) hlength
          (ih (fun other hother => hsendable other (List.mem_cons_of_mem _ hother)) (.inl rfl))
        refine hstorage.resolve_right ?_
        intro hnew
        have htype : request.type = kNetReqNewStorage := hnew request rfl
        rw [NetRequest.IsUpdate, htype] at hupdate
        revert hupdate
        decide
      · have hrefused : Conforming hasStorage (request.header.encode ++
            (request.encode ++ [] ++ rest.flatMap NetRequest.frame)) :=
          .refused request.header hrequest.fits hknown (by simpa using hlength) _
        simpa using hrefused

namespace Connection

variable {S : Type} [MappedStorage S] {storageCreator : Address → S}

/-- A connection that is sent frames of known requests is never closed, and what it
has handled and not handled yet make up the requests. -/
theorem Follows.of_frames {connection : Connection S} {delivered future : Bytes}
    {requests : List NetRequest} (h : Follows storageCreator delivered future connection)
    (hsendable : ∀ request ∈ requests, request.Sendable)
    (hknown : ∀ request ∈ requests, request.Known)
    (hstream : delivered ++ future = requests.flatMap NetRequest.frame) :
    ∃ session condition callback rest, connection = .reading session condition callback ∧
      session.Waits callback condition.size ∧
      Handled storageCreator .initial session session.handled ∧
      requests = session.handled ++ rest ∧
      delivered = session.handled.flatMap NetRequest.frame ++ session.pending callback ∧
      session.pending callback ++ future = rest.flatMap NetRequest.frame := by
  have hfits : ∀ request ∈ requests, request.Fits := fun request hrequest =>
    (hsendable request hrequest).fits
  cases h with
  | @waits session condition callback done hwaits hhandled hdone hbytes hmore =>
      obtain rfl : session.handled = done := hhandled.handled
      rw [hbytes, List.append_assoc] at hstream
      obtain ⟨rest, hrequests, hrest⟩ := exists_rest_of_frames
        (fun request hrequest => (hdone request hrequest).1.fits) hfits hstream
      exact ⟨session, condition, callback, rest, rfl, hwaits, hhandled, hrequests, hbytes, hrest⟩
  | closed done outbound request rest hannounced hrequest hunknown hconsumed hhandled hdone
      hbytes =>
      -- the refused request would be one of the stream
      rw [hbytes, List.append_assoc] at hstream
      obtain ⟨left, hrequests, hleft⟩ := exists_rest_of_frames
        (fun request hrequest => (hdone request hrequest).1.fits) hfits hstream
      rw [List.append_assoc] at hleft
      obtain ⟨other, left', rfl, -, hbody⟩ := exists_cons_of_header hleft
      have hother : other ∈ requests := by simp [hrequests]
      have hread := congrArg (fun bytes => (read true bytes : Option (NetRequest × Bytes))) hbody
      rw [List.append_assoc] at hread
      simp only [read_request true hrequest, read_request true (hfits other hother)] at hread
      obtain ⟨rfl, -⟩ : request = other ∧ rest ++ future = left'.flatMap NetRequest.frame := by
        simpa using hread
      exact absurd (hknown request hother) hunknown

omit [MappedStorage S] in
/-- Pending bytes are less than a frame, and what is asked for completes its header or all of it. -/
theorem length_pending {session : MemDBSession S} {callback : ParsingCallback} {size : ℕ}
    (hwaits : session.Waits callback size) {request : NetRequest} {rest : List NetRequest}
    {future : Bytes} (hsendable : request.Sendable)
    (hrest : session.pending callback ++ future = (request :: rest).flatMap NetRequest.frame) :
    (session.pending callback).length < request.frame.length ∧
      size = (if (session.pending callback).length < sizeofNetProtoOutbound then
        sizeofNetProtoOutbound else request.frame.length) - (session.pending callback).length := by
  obtain ⟨hsize, hlength⟩ := hwaits
  have hframe : request.frame.length = sizeofNetProtoOutbound + request.encode.length := by
    simp [NetRequest.frame, NetProtoOutbound.encode, sizeofNetProtoOutbound]
  cases callback with
  | parseOutbound =>
      have hlength' : (session.pending .parseOutbound).length + size = sizeofNetProtoOutbound :=
        hlength
      refine ⟨by omega, ?_⟩
      rw [if_pos (by omega)]
      omega
  | parseInbound =>
      have hlength' : session.sbuf.length + size = session.announced.toNat := hlength
      rw [pending, List.append_assoc] at hrest
      obtain ⟨other, rest', hcons, hheader, -⟩ := exists_cons_of_header hrest
      obtain ⟨rfl, -⟩ : request = other ∧ rest = rest' := by simpa using hcons
      have hannounced : session.announced.toNat = request.encode.length := by
        rw [← hsendable.toNat_header, ← hheader]
      have hpending : (session.pending .parseInbound).length =
          sizeofNetProtoOutbound + session.sbuf.length := by
        simp [pending, NetProtoOutbound.encode, sizeofNetProtoOutbound]
      refine ⟨by omega, ?_⟩
      rw [if_neg (by omega)]
      omega

omit [MappedStorage S] in
theorem completeFrames_pending {session : MemDBSession S} {callback : ParsingCallback} {size : ℕ}
    (hwaits : session.Waits callback size) {rest : List NetRequest} {future : Bytes}
    (hsendable : ∀ request ∈ rest, request.Sendable)
    (hrest : session.pending callback ++ future = rest.flatMap NetRequest.frame) :
    completeFrames rest (session.pending callback).length = [] := by
  cases rest with
  | nil => rfl
  | cons request rest =>
      have hshort := (length_pending hwaits (hsendable request (List.mem_cons_self ..)) hrest).1
      rw [completeFrames, if_neg (by omega)]

/-! ## Reads of the right sizes -/

/-- How many bytes a session asks for when it has got `delivered` of a stream of frames. -/
def asksFor : List NetRequest → ℕ → ℕ
  | [], delivered => sizeofNetProtoOutbound - delivered
  | request :: rest, delivered =>
      if request.frame.length ≤ delivered then asksFor rest (delivered - request.frame.length)
      else (if delivered < sizeofNetProtoOutbound then sizeofNetProtoOutbound
        else request.frame.length) - delivered

theorem asksFor_append (done rest : List NetRequest) (extra : ℕ) :
    asksFor (done ++ rest) ((done.flatMap NetRequest.frame).length + extra) =
      asksFor rest extra := by
  induction done with
  | nil => simp
  | cons request done ih =>
      rw [List.flatMap_cons, List.length_append, List.cons_append, asksFor, if_pos (by omega),
        Nat.add_assoc, Nat.add_sub_cancel_left, ih]

omit [MappedStorage S] in
theorem asksFor_pending {session : MemDBSession S} {callback : ParsingCallback} {size : ℕ}
    (hwaits : session.Waits callback size) {rest : List NetRequest} {future : Bytes}
    (hsendable : ∀ request ∈ rest, request.Sendable)
    (hrest : session.pending callback ++ future = rest.flatMap NetRequest.frame) :
    asksFor rest (session.pending callback).length = size := by
  cases rest with
  | nil =>
      -- nothing is pending, so the session waits for a header
      obtain ⟨hnone, -⟩ := List.append_eq_nil_iff.mp hrest
      obtain ⟨-, hlength⟩ := hwaits
      cases callback with
      | parseOutbound =>
          simp only [pending] at hnone hlength ⊢
          rw [asksFor, hnone]
          simpa [hnone] using hlength.symm
      | parseInbound =>
          have hempty := congrArg List.length hnone
          simp [pending, NetProtoOutbound.encode] at hempty
  | cons request rest =>
      obtain ⟨hshort, hsize⟩ :=
        length_pending hwaits (hsendable request (List.mem_cons_self ..)) hrest
      rw [asksFor, if_neg (by omega), hsize]

/-- Each read delivers what the session asks for then. -/
def Sized (requests : List NetRequest) : ℕ → List Bytes → Prop
  | _, [] => True
  | delivered, bytes :: rest =>
      bytes.length = asksFor requests delivered ∧ Sized requests (delivered + bytes.length) rest

instance Sized.decidable (requests : List NetRequest) :
    (delivered : ℕ) → (reads : List Bytes) → Decidable (Sized requests delivered reads)
  | _, [] => isTrue trivial
  | delivered, bytes :: rest =>
      have : Decidable (Sized requests (delivered + bytes.length) rest) :=
        Sized.decidable requests _ rest
      inferInstanceAs (Decidable (_ ∧ _))

theorem Follows.delivers_of_sized (bigEndian : Bool) {connection : Connection S}
    {delivered future : Bytes} {requests : List NetRequest} {reads : List Bytes}
    (h : Follows storageCreator delivered (reads.flatten ++ future) connection)
    (hsendable : ∀ request ∈ requests, request.Sendable)
    (hknown : ∀ request ∈ requests, request.Known)
    (hstream : delivered ++ (reads.flatten ++ future) = requests.flatMap NetRequest.frame)
    (hsized : Sized requests delivered.length reads) :
    connection.Delivers bigEndian storageCreator reads := by
  induction reads generalizing connection delivered with
  | nil => trivial
  | cons bytes reads ih =>
      obtain ⟨hlength, hlater⟩ := hsized
      obtain ⟨session, condition, callback, rest, rfl, hwaits, -, hrequests, hbytes, hrest⟩ :=
        h.of_frames hsendable hknown hstream
      have hasked : bytes.length = condition.size := by
        rw [hlength, hbytes, List.length_append, hrequests, asksFor_append,
          asksFor_pending hwaits (fun request hrequest => hsendable request
            (hrequests ▸ List.mem_append_right _ hrequest)) hrest]
      have hmet : condition.Met bytes.length := hasked ▸ condition.met_size
      rw [List.flatten_cons, List.append_assoc] at h hstream
      refine ⟨hmet, ih (h.receive bigEndian hmet) ?_ ?_⟩
      · rw [List.append_assoc]
        exact hstream
      · rwa [List.length_append]

/-- Reads of these sizes are how a stream of frames is delivered. -/
theorem delivers_of_sized (bigEndian : Bool) (storageCreator : Address → S)
    {requests : List NetRequest} {first : Bytes} {reads : List Bytes}
    (hsendable : ∀ request ∈ requests, request.Sendable)
    (hnew : ∀ request ∈ requests.head?, request.type = kNetReqNewStorage)
    (hknown : ∀ request ∈ requests, request.Known)
    (hfirst : sizeofNetProtoOutbound ≤ first.length)
    (hsized : Sized requests first.length reads)
    (hstream : (first :: reads).flatten <+: requests.flatMap NetRequest.frame) :
    start.Delivers bigEndian storageCreator (first :: reads) := by
  obtain ⟨future, hfuture⟩ := hstream
  rw [List.flatten_cons, List.append_assoc] at hfuture
  have hconforming : Conforming false (first ++ (reads.flatten ++ future)) :=
    hfuture ▸ conforming_frames hsendable (.inr hnew)
  have hstart : Follows storageCreator [] (first ++ (reads.flatten ++ future)) start :=
    follows_start hconforming
  exact ⟨hfirst, (hstart.receive bigEndian hfirst).delivers_of_sized bigEndian hsendable hknown
    hfuture hsized⟩

/-- **Parsing does not depend on the fragments.**  What `Send` writes are the frames of the
requests.  Whenever the session waits for its next read, it has handled the requests whose
frames are complete, each once and in order; what it has left and what it asks for make up
the next header or the rest of the current body; and it asks for something. -/
theorem handled_eq_completeFrames (clientBigEndian serverBigEndian : Bool)
    (storageCreator : Address → S) (requests : List NetRequest)
    (hsendable : ∀ request ∈ requests, request.Sendable)
    (hnew : ∀ request ∈ requests.head?, request.type = kNetReqNewStorage)
    (hknown : ∀ request ∈ requests, request.Known) (reads : List Bytes)
    (hdelivers : start.Delivers serverBigEndian storageCreator reads)
    (hstream : reads.flatten <+: (requests.foldl (fun client request => client.send request)
      (⟨clientBigEndian, []⟩ : NetworkMappedStorage)).sent) :
    (requests.foldl (fun client request => client.send request)
        (⟨clientBigEndian, []⟩ : NetworkMappedStorage)).sent =
        requests.flatMap NetRequest.frame ∧
      ∃ session condition callback,
      start.run serverBigEndian storageCreator reads = .reading session condition callback ∧
        session.handled = completeFrames requests reads.flatten.length ∧ condition.size ≠ 0 ∧
        match callback with
        | .parseOutbound =>
            reads.flatten = session.handled.flatMap NetRequest.frame ++ session.sbuf ∧
              session.sbuf.length + condition.size = sizeofNetProtoOutbound
        | .parseInbound => ∃ request rest, requests = session.handled ++ request :: rest ∧
            reads.flatten = session.handled.flatMap NetRequest.frame ++
              (request.header.encode ++ session.sbuf) ∧
            session.sbuf.length + condition.size = request.encode.length := by
  have hsent : (requests.foldl (fun client request => client.send request)
      (⟨clientBigEndian, []⟩ : NetworkMappedStorage)).sent =
      requests.flatMap NetRequest.frame := by
    rw [NetworkMappedStorage.sent_foldl_send hsendable, List.nil_append]
  refine ⟨hsent, ?_⟩
  obtain ⟨future, hfuture⟩ := hstream
  rw [hsent] at hfuture
  have hconforming : Conforming false (reads.flatten ++ future) :=
    hfuture ▸ conforming_frames hsendable (.inr hnew)
  have hfollows : Follows storageCreator reads.flatten future
      (start.run serverBigEndian storageCreator reads) :=
    (follows_start hconforming).run serverBigEndian hdelivers
  obtain ⟨session, condition, callback, rest, hrun, hwaits, -, hrequests, hbytes, hrest⟩ :=
    hfollows.of_frames hsendable hknown hfuture
  have hrestSendable : ∀ request ∈ rest, request.Sendable := fun request hrequest =>
    hsendable request (by rw [hrequests]; exact List.mem_append_right _ hrequest)
  refine ⟨session, condition, callback, hrun, ?_, hwaits.1, ?_⟩
  · rw [hbytes, List.length_append, hrequests, completeFrames_append,
      completeFrames_pending hwaits hrestSendable hrest, List.append_nil]
  · cases callback with
    | parseOutbound => exact ⟨hbytes, hwaits.2⟩
    | parseInbound =>
        have hlength : session.sbuf.length + condition.size = session.announced.toNat := hwaits.2
        rw [pending, List.append_assoc] at hrest
        obtain ⟨request, rest', rfl, hheader, -⟩ := exists_cons_of_header hrest
        refine ⟨request, rest', hrequests, ?_, ?_⟩
        · rw [hbytes, pending, hheader]
        · rw [hlength, ← (hrestSendable request (List.mem_cons_self ..)).toNat_header, ← hheader]

/-- The first request of a client. -/
def sampleNewStorage : NetRequest := ⟨kNetReqNewStorage, ⟨4321, 0, 7⟩, []⟩

/-- An allocation with a frame of its call stack. -/
def sampleAdd : NetRequest := ⟨kNetReqAdd, ⟨16, 400, 9⟩, [⟨[47, 97], [102], 4096, 4100, 8, 4⟩]⟩

/-- A client that opens a storage, allocates a block and frees it. -/
def sampleRequests : List NetRequest :=
  [sampleNewStorage, sampleAdd, ⟨kNetReqRemove, ⟨16, 0, 0⟩, []⟩]

/-- Their frames of 40, 83 and 40 bytes, cut inside the body of the second one, behind it, and
behind the next header. -/
def sampleReads : List Bytes :=
  let stream := sampleRequests.flatMap NetRequest.frame
  [stream.take 60, (stream.drop 60).take 63, (stream.drop 123).take 8]

theorem handled_eq_completeFrames_sampleReads :
    ∃ session condition callback,
      (start : Connection BasicMappedStorage).run true (fun _ => .empty) sampleReads =
          .reading session condition callback ∧
        session.handled = [sampleNewStorage, sampleAdd] ∧ condition.size ≠ 0 := by
  have hsendable : ∀ request ∈ sampleRequests, request.Sendable := by
    simp only [sampleRequests, List.forall_mem_cons]
    refine ⟨NetRequest.sendable_of_nil _ _, ⟨⟨by decide, ?_⟩, by decide⟩,
      NetRequest.sendable_of_nil _ _, nofun⟩
    simp [sampleAdd, CallStackInfoItem.Fits]
  have hnew : ∀ request ∈ sampleRequests.head?, request.type = kNetReqNewStorage := by decide
  have hknown : ∀ request ∈ sampleRequests, request.Known := by decide
  have hdelivers : (start : Connection BasicMappedStorage).Delivers true (fun _ => .empty)
      sampleReads :=
    delivers_of_sized true _ hsendable hnew hknown (by decide) (by decide) (by decide)
  obtain ⟨-, session, condition, callback, hrun, hhandled, hsize, -⟩ :=
    handled_eq_completeFrames false true (fun _ => BasicMappedStorage.empty) sampleRequests
      hsendable hnew hknown sampleReads hdelivers (by decide)
  have hlength : sampleReads.flatten.length =
      ([sampleNewStorage, sampleAdd].flatMap NetRequest.frame).length + 8 := by decide +kernel
  refine ⟨session, condition, callback, hrun, hhandled.trans ?_, hsize⟩
  rw [hlength]
  exact completeFrames_append [sampleNewStorage, sampleAdd] _ 8

end Connection

end Memhook
