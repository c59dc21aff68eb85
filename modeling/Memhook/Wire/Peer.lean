import Memhook.Wire.Delivery

/-!
# Any peer

A peer may send what it likes.  The session trusts it in three ways: the lengths
inside a request are not compared with the size the header announced, neither when
the decoder runs past the body nor when it stops before its end, and a request for
the storage may come before there is one.  On a stream that keeps to the format,
`Conforming`, nothing of this can happen; on others it does.
-/

namespace Memhook

open MemDBSession

/-- The decoder stayed within the body, and read all of it unless the session refused
the request. -/
def ParsedFrame.Sound (frame : ParsedFrame) : Prop :=
  frame.consumed ≤ frame.announced ∧ (frame.accepted = true → frame.consumed = frame.announced)

namespace Connection

variable {S : Type} [MappedStorage S] {storageCreator : Address → S}

/-- No fault has occurred, every frame was parsed within its bounds, and a session that
still reads has accepted all of them. -/
def Safe : Connection S → Prop
  | reading session _ _ => ∀ frame ∈ session.frames, frame.Sound ∧ frame.accepted = true
  | closed session => ∀ frame ∈ session.frames, frame.Sound
  | faulted _ => False

omit [MappedStorage S] in
theorem sound_of_accepted (done : List NetRequest) :
    ∀ frame ∈ done.map fun request : NetRequest =>
      (⟨request.encode.length, request.encode.length, true⟩ : ParsedFrame),
      frame.Sound ∧ frame.accepted = true := by
  intro frame hframe
  obtain ⟨request, -, rfl⟩ := List.mem_map.mp hframe
  exact ⟨⟨Nat.le_refl _, fun _ => rfl⟩, rfl⟩

theorem Follows.safe {connection : Connection S} {delivered future : Bytes}
    (h : Follows storageCreator delivered future connection) : connection.Safe := by
  cases h with
  | waits done hwaits hhandled hdone hbytes hmore =>
      intro frame hframe
      rw [hhandled.frames, show (initial : MemDBSession S).frames = [] from rfl,
        List.nil_append] at hframe
      exact sound_of_accepted done frame hframe
  | @closed session done outbound request rest hannounced hfits hunknown hconsumed hhandled =>
      intro frame hframe
      rw [refuse, hhandled.frames, show (initial : MemDBSession S).frames = [] from rfl,
        List.nil_append] at hframe
      rcases List.mem_append.mp hframe with hframe | hframe
      · exact (sound_of_accepted done frame hframe).1
      · obtain rfl := List.mem_singleton.mp hframe
        rw [← hannounced] at hconsumed
        exact ⟨hconsumed, fun haccepted => Bool.noConfusion haccepted⟩

theorem Delivers.of_append {bigEndian : Bool} {connection : Connection S}
    {seen rest : List Bytes} (h : connection.Delivers bigEndian storageCreator (seen ++ rest)) :
    connection.Delivers bigEndian storageCreator seen := by
  induction seen generalizing connection with
  | nil => trivial
  | cons bytes seen ih =>
      cases connection with
      | reading session condition callback => exact ⟨h.1, ih h.2⟩
      | closed session => exact h.elim
      | faulted fault => exact h.elim

/-! ## A safe session was sent a conforming stream -/

end Connection

namespace MemDBSession

variable {S : Type} [MappedStorage S] {storageCreator : Address → S}

/-- From what parsing came to back to what it was given: the log only grows, and if the
frames in it are sound, then the stream conforms if its rest does. -/
structure Traces (session : MemDBSession S) (info : ParsingInfo) (session' : MemDBSession S) :
    Prop where
  grows : session.frames <+: session'.frames
  closes : info.size = 0 → (∀ frame ∈ session'.frames, frame.Sound) →
    ∀ future, Conforming session.storage.isSome (session.sbuf ++ future)
  waits : ∀ callback, info.callback = some callback → session'.Waits callback info.size ∧
    ((∀ frame ∈ session'.frames, frame.Sound) → ∀ future,
      Conforming session'.storage.isSome (session'.pending callback ++ future) →
      Conforming session.storage.isSome (session.sbuf ++ future))

/-- A request that was refused within its frame. -/
theorem conforming_refused {outbound : NetProtoOutbound} {request : NetRequest} {rest : Bytes}
    {hasStorage : Bool} (hfits : request.Fits) (hunknown : ¬ request.Known)
    (hsize : outbound.size.toNat ≤ (request.encode ++ rest).length)
    (hconsumed : request.encode.length ≤ outbound.size.toNat) (future : Bytes) :
    Conforming hasStorage (outbound.encode ++ (request.encode ++ rest) ++ future) := by
  let unread := outbound.size.toNat - request.encode.length
  have hlength : (request.encode ++ rest.take unread).length = outbound.size.toNat := by
    rw [List.length_append] at hsize
    rw [List.length_append, List.length_take]
    omega
  have hrefused : Conforming hasStorage (outbound.encode ++
      (request.encode ++ rest.take unread ++ (rest.drop unread ++ future))) :=
    .refused outbound hfits hunknown hlength _
  have hrest : rest.take unread ++ (rest.drop unread ++ future) = rest ++ future := by
    rw [← List.append_assoc, List.take_append_drop]
  rw [List.append_assoc, hrest] at hrefused
  simpa [List.append_assoc] using hrefused

/-- Parsing that does not fault has found a request. -/
theorem exists_request_of_parseInbound {bigEndian : Bool} {session : MemDBSession S}
    {result : ParsingInfo × MemDBSession S}
    (h : session.parseInbound bigEndian storageCreator = .ok result) :
    ∃ (request : NetRequest) (rest : Bytes), request.Fits ∧
      session.sbuf = request.encode ++ rest ∧ (request.IsUpdate → session.storage.isSome) := by
  rw [parseInbound] at h
  split at h
  · cases h
  · next request rest hread =>
      obtain ⟨hfits, hsbuf⟩ := encode_of_read hread
      refine ⟨request, rest, hfits, hsbuf, ?_⟩
      intro hupdate
      by_contra hnone
      rw [handleNetRequest_noStorage hupdate (by simpa using hnone)] at h
      cases h

theorem exists_header_of_parseOutbound {bigEndian : Bool} {session : MemDBSession S}
    {result : ParsingInfo × MemDBSession S}
    (h : session.parseOutbound bigEndian storageCreator = .ok result)
    (hlength : ¬ session.sbuf.length < sizeofNetProtoOutbound) :
    ∃ (outbound : NetProtoOutbound) (rest : Bytes), session.sbuf = outbound.encode ++ rest := by
  rw [parseOutbound, if_neg hlength] at h
  split at h
  · cases h
  · next outbound rest hread => exact ⟨outbound, rest, (encode_of_read hread).2⟩

omit [MappedStorage S] in
/-- Waiting for more bytes changes nothing. -/
theorem traces_of_waits {session session' : MemDBSession S} {callback : ParsingCallback}
    {size : ℕ} (hwaits : session'.Waits callback size) (hframes : session'.frames = session.frames)
    (hstorage : session'.storage = session.storage)
    (hpending : session'.pending callback = session.sbuf) :
    Traces session ⟨size, some callback⟩ session' := by
  refine ⟨hframes ▸ List.prefix_refl _, fun hzero => absurd hzero hwaits.1,
    fun callback' hcallback => ?_⟩
  cases hcallback
  refine ⟨hwaits, ?_⟩
  intro _ future hmore
  rwa [hstorage, hpending] at hmore

/-- A request that was accepted, and what came after it. -/
theorem Traces.of_accept {session session' : MemDBSession S} {info : ParsingInfo}
    {outbound : NetProtoOutbound} {request : NetRequest} {rest : Bytes}
    (hsbuf : session.sbuf = outbound.encode ++ (request.encode ++ rest)) (hfits : request.Fits)
    (hknown : request.Known) (hneeds : request.IsUpdate → session.storage.isSome)
    (h : Traces ({ session with
        sbuf := request.encode ++ rest
        announced := outbound.size }.accept storageCreator request rest) info session') :
    Traces session info session' := by
  have hstorage : (request.serve storageCreator session.storage).isSome = true :=
    isSome_serve hknown hneeds
  -- the stream conforms if it does after this request
  have hnext : (∀ frame ∈ session'.frames, frame.Sound) → ∀ future,
      Conforming (request.serve storageCreator session.storage).isSome (rest ++ future) →
      Conforming session.storage.isSome (session.sbuf ++ future) := by
    intro hsound future hmore
    have hframe : (⟨outbound.size.toNat, request.encode.length, true⟩ : ParsedFrame) ∈
        session'.frames := h.grows.subset (by simp [accept])
    have hlength : request.encode.length = outbound.size.toNat := (hsound _ hframe).2 rfl
    rw [hstorage] at hmore
    rw [hsbuf, List.append_assoc, List.append_assoc]
    exact .next outbound hfits hknown hneeds hlength hmore
  refine ⟨(List.prefix_append _ _).trans h.grows, fun hzero hsound future => ?_,
    fun callback hcallback => ?_⟩
  · exact hnext hsound future (h.closes hzero hsound future)
  · obtain ⟨hwaits, hback⟩ := h.waits callback hcallback
    exact ⟨hwaits, fun hsound future hmore => hnext hsound future (hback hsound future hmore)⟩

omit [MappedStorage S] in
theorem traces_refuse {session : MemDBSession S} {outbound : NetProtoOutbound}
    {request : NetRequest} {rest : Bytes}
    (hsbuf : session.sbuf = outbound.encode ++ (request.encode ++ rest)) (hfits : request.Fits)
    (hunknown : ¬ request.Known)
    (hsize : outbound.size.toNat ≤ (request.encode ++ rest).length) :
    Traces session ⟨0, none⟩ ({ session with
      sbuf := request.encode ++ rest
      announced := outbound.size }.refuse request) := by
  refine ⟨List.prefix_append _ _, ?_, fun _ hcallback => nomatch hcallback⟩
  intro _ hsound future
  have hframe := hsound ⟨outbound.size.toNat, request.encode.length, false⟩ (by simp [refuse])
  rw [hsbuf]
  exact conforming_refused hfits hunknown hsize hframe.1 future

theorem traces_parseOutbound (bigEndian : Bool) {session session' : MemDBSession S}
    {info : ParsingInfo}
    (h : session.parseOutbound bigEndian storageCreator = .ok (info, session')) :
    Traces session info session' := by
  by_cases hshort : session.sbuf.length < sizeofNetProtoOutbound
  · rw [parseOutbound_short bigEndian hshort] at h
    cases h
    exact traces_of_waits (waits_header hshort) rfl rfl rfl
  · obtain ⟨outbound, rest, hsbuf⟩ := exists_header_of_parseOutbound h hshort
    rw [parseOutbound_header bigEndian hsbuf] at h
    split at h
    · next hlength =>
        cases h
        exact traces_of_waits (waits_body hlength) rfl rfl hsbuf.symm
    · next hwhole =>
        obtain ⟨request, left, hfits, hrest, hneeds⟩ := exists_request_of_parseInbound h
        obtain rfl : rest = request.encode ++ left := hrest
        by_cases hknown : request.Known
        · rw [parseInbound_known bigEndian rfl hfits hknown hneeds] at h
          have hless : left.length < session.sbuf.length := by
            rw [hsbuf, List.length_append, List.length_append, NetProtoOutbound.encode,
              length_encode64]
            omega
          exact (traces_parseOutbound bigEndian h).of_accept hsbuf hfits hknown hneeds
        · rw [parseInbound_unknown bigEndian rfl hfits hknown] at h
          cases h
          exact traces_refuse hsbuf hfits hknown (by omega)
termination_by session.sbuf.length

end MemDBSession

namespace Connection

variable {S : Type} [MappedStorage S] {storageCreator : Address → S}

omit [MappedStorage S] in
theorem conforming_pending {session : MemDBSession S} {callback : ParsingCallback} {size : ℕ}
    (hwaits : session.Waits callback size) (hasStorage : Bool) :
    Conforming hasStorage (session.pending callback) := by
  obtain ⟨hsize, hlength⟩ := hwaits
  cases callback with
  | parseOutbound =>
      simp only at hlength
      exact .short (show session.sbuf.length < _ by omega)
  | parseInbound =>
      simp only at hlength
      exact .incomplete ⟨session.announced⟩ (show _ < session.announced.toNat by omega)

theorem conforming_of_safe (bigEndian : Bool) {session : MemDBSession S}
    {condition : CompletionCondition} {callback : ParsingCallback} {reads : List Bytes}
    (hwaits : session.Waits callback condition.size)
    (hdelivers : (reading session condition callback).Delivers bigEndian storageCreator reads)
    (hsafe : ∀ seen, seen <+: reads →
      ((reading session condition callback).run bigEndian storageCreator seen).Safe) :
    Conforming session.storage.isSome (session.pending callback ++ reads.flatten) := by
  induction reads generalizing session condition callback with
  | nil => simpa using conforming_pending hwaits _
  | cons bytes rest ih =>
      obtain ⟨hmet, hrest⟩ := hdelivers
      have hcall : call bigEndian storageCreator callback
          { session with sbuf := session.sbuf ++ bytes } =
          { session with sbuf := session.pending callback ++ bytes }.parseOutbound bigEndian
            storageCreator :=
        call_eq_parseOutbound bigEndian hwaits hmet
      have hfirst := hsafe [bytes] (by simp)
      have hlater : ∀ seen, seen <+: rest → (((reading session condition callback).receive bigEndian
          storageCreator bytes).run bigEndian storageCreator seen).Safe :=
        fun seen hseen => hsafe (bytes :: seen) (List.prefix_cons_inj bytes |>.mpr hseen)
      simp only [Connection.run, List.foldl_cons, List.foldl_nil] at hfirst
      simp only [Connection.receive, onReadComplete, hcall] at hrest hfirst hlater
      rw [List.flatten_cons, ← List.append_assoc]
      cases hparse : ({ session with sbuf := session.pending callback ++ bytes } :
          MemDBSession S).parseOutbound bigEndian storageCreator with
      | error fault =>
          rw [hparse] at hfirst
          exact hfirst.elim
      | ok result =>
          obtain ⟨info, session'⟩ := result
          have htraces := traces_parseOutbound bigEndian hparse
          simp only [hparse] at hrest hfirst hlater
          by_cases hzero : info.size = 0
          · simp only [if_pos hzero] at hrest hfirst
            cases rest with
            | nil => exact htraces.closes hzero hfirst _
            -- nothing is read any more
            | cons bytes' rest => exact hrest.elim
          · simp only [if_neg hzero] at hrest hfirst hlater
            cases hcallback : info.callback with
            | none =>
                rw [hcallback] at hfirst
                exact hfirst.elim
            | some callback' =>
                simp only [hcallback] at hrest hfirst hlater
                obtain ⟨hwaits', hback⟩ := htraces.waits callback' hcallback
                have hwaits' : session'.Waits callback'
                  (CompletionCondition.transferExactly info.size).size := hwaits'
                exact hback (fun frame hframe => (hfirst frame hframe).1) _
                  (ih hwaits' hrest hlater)

/-- **A session is safe exactly against the peers that keep to the format.**  However
the stream is fragmented: in no state the session reaches has the decoder left the
body of a frame or the session used a storage it does not have, and whatever is not
consumed exactly is refused and the session closed, if and only if the stream
conforms. -/
theorem safe_iff_conforming (bigEndian : Bool) (storageCreator : Address → S)
    (reads : List Bytes) (hdelivers : start.Delivers bigEndian storageCreator reads) :
    (∀ seen, seen <+: reads → (start.run bigEndian storageCreator seen).Safe) ↔
      Conforming false reads.flatten := by
  refine ⟨fun hsafe => conforming_of_safe bigEndian ⟨by decide, rfl⟩ hdelivers hsafe,
    fun hconforming seen hseen => ?_⟩
  obtain ⟨rest, rfl⟩ := hseen
  rw [List.flatten_append] at hconforming
  exact ((follows_start hconforming).run bigEndian hdelivers.of_append).safe

/-- A storage is opened, and then a request comes that the session does not know, in a
frame with one byte too many. -/
def peerReads : List Bytes :=
  [sampleNewStorage.frame ++ ((⟨33⟩ : NetProtoOutbound).encode ++
    ((⟨5, ⟨0, 0, 0⟩, []⟩ : NetRequest).encode ++ [0] ++ [1, 2, 3]))]

theorem safe_iff_conforming_peerReads :
    (start.run true (fun _ => BasicMappedStorage.empty) peerReads).Safe := by
  have hnew : sampleNewStorage.Sendable := NetRequest.sendable_of_nil _ _
  have hconforming : Conforming false peerReads.flatten := by
    have hrefused : Conforming true ((⟨33⟩ : NetProtoOutbound).encode ++
        ((⟨5, ⟨0, 0, 0⟩, []⟩ : NetRequest).encode ++ [0] ++ [1, 2, 3])) :=
      .refused ⟨33⟩ (NetRequest.sendable_of_nil _ _).fits (by decide) (by decide) [1, 2, 3]
    have hnext : Conforming false
        (sampleNewStorage.header.encode ++ (sampleNewStorage.encode ++ _)) :=
      .next sampleNewStorage.header hnew.fits (.inr rfl)
        (fun hupdate => absurd hupdate (by decide)) hnew.toNat_header.symm hrefused
    simpa [peerReads, NetRequest.frame, List.append_assoc] using hnext
  exact (safe_iff_conforming true (fun _ => BasicMappedStorage.empty) peerReads
    ⟨by decide, trivial⟩).mpr hconforming peerReads (List.prefix_refl _)

/-- A request that needs a storage, sent first. -/
def prematureAdd : NetRequest := ⟨kNetReqAdd, ⟨16, 100, 1⟩, []⟩

/-- Eight zero bytes announce an empty body, from which a request is read all the same;
and an `Add` that comes first finds no storage. -/
theorem peer_causes_faults :
    (start.Delivers true (fun _ => BasicMappedStorage.empty) [(⟨0⟩ : NetProtoOutbound).encode] ∧
      start.run true (fun _ => BasicMappedStorage.empty) [(⟨0⟩ : NetProtoOutbound).encode] =
        .faulted .overread) ∧
    (start.Delivers true (fun _ => BasicMappedStorage.empty) [prematureAdd.frame] ∧
      start.run true (fun _ => BasicMappedStorage.empty) [prematureAdd.frame] =
        .faulted .noStorage) := by
  have hempty : call true (fun _ => BasicMappedStorage.empty) .parseOutbound
      ⟨(⟨0⟩ : NetProtoOutbound).encode, none, 0, [], []⟩ = .error .overread := by
    refine (parseOutbound_header true (List.append_nil _).symm).trans ?_
    rw [if_neg (by decide), parseInbound]
    split
    · rfl
    · next hread => exact absurd (length_lt_of_read hread) (by simp)
  have hpremature : call true (fun _ => BasicMappedStorage.empty) .parseOutbound
      ⟨prematureAdd.frame, none, 0, [], []⟩ = .error .noStorage := by
    refine (parseOutbound_header true rfl).trans ?_
    rw [if_neg (by decide)]
    exact parseInbound_noStorage true (List.append_nil _).symm
      (NetRequest.sendable_of_nil _ _).fits (.inl rfl) rfl
  refine ⟨⟨⟨by decide, trivial⟩, ?_⟩, ⟨by decide, trivial⟩, ?_⟩
  · show onReadComplete true _ .parseOutbound ⟨(⟨0⟩ : NetProtoOutbound).encode, none, 0, [], []⟩ = _
    rw [onReadComplete, hempty]
  · show onReadComplete true _ .parseOutbound ⟨prematureAdd.frame, none, 0, [], []⟩ = _
    rw [onReadComplete, hpremature]

end Connection

end Memhook
